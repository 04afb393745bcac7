import Ucxpp.PerftestOptions

/-!
# PerftestOptionsRead — what main reads out of its arguments

One setting takes the loop one iteration on (`parse_says`), and an iteration that does not
stop has read one setting (`assign_says`). So the loop ends exactly on arguments that
spell settings, and stops exactly behind such arguments at one that it cannot take.
-/

namespace Ucxpp.PerftestOptions

/-! ## One iteration -/

/-- What the branch of a setting assigns. -/
def Setting.apply (perf : PerfContext) : Setting → PerfContext
  | .test stream => { perf with test := (if stream then .stream else .tag, perf.test.2) }
  | .core n => { perf with core := some n.toInt64.toUInt64 }
  | .concurrency n => { perf with concurrency := n }
  | .messageSize n => { perf with messageSize := n }
  | .iterations n => { perf with iterations := n }
  | .warmup n => { perf with warmupIterations := n }
  | .port n => { perf with serverPort := n.toUInt16 }
  | .epoll => { perf with epoll := true }
  | .address text => { perf with serverAddress := text }

/-- The name of an option. -/
def Opt.name : Opt → Str
  | .test => ['-', 't']
  | .core => ['-', 'c']
  | .concurrency => ['-', 'o']
  | .messageSize => ['-', 's']
  | .iterations => ['-', 'n']
  | .warmup => ['-', 'w']
  | .port => ['-', 'p']

/-- What the comparisons of the loop have found out. -/
inductive Classified (arg : Str) : Arg → Prop
  | help (h : arg = ['-', 'h']) : Classified arg .help
  | opt {o} (h : arg = Opt.name o) : Classified arg (.opt o)
  | epoll (h : arg = ['-', 'e']) : Classified arg .epoll
  | unknown (hminus : arg.head? = some '-')
      (hnot : arg ∉ ['-', 'h'] :: ['-', 't'] :: ['-', 'c'] :: ['-', 'e'] :: counts) :
      Classified arg .unknown
  | address (h : arg.head? ≠ some '-') : Classified arg .address

theorem classified (arg : Str) : Classified arg (classify arg) := by
  unfold classify
  split
  · exact .help ‹_›
  split
  · exact .opt (o := .test) ‹_›
  split
  · exact .opt (o := .core) ‹_›
  split
  · exact .opt (o := .concurrency) ‹_›
  split
  · exact .opt (o := .messageSize) ‹_›
  split
  · exact .opt (o := .iterations) ‹_›
  split
  · exact .opt (o := .warmup) ‹_›
  split
  · exact .epoll ‹_›
  split
  · exact .opt (o := .port) ‹_›
  split
  · refine .unknown ‹_› ?_
    simp [counts, *]
  · exact .address ‹_›

theorem classify_name (o : Opt) : classify o.name = .opt o := by
  cases o with
  | test | core | concurrency | messageSize | iterations | warmup | port => rfl

theorem classify_address {arg : Str} (h : arg.head? ≠ some '-') : classify arg = .address := by
  have hother : ∀ c, arg ≠ ['-', c] := by
    rintro c rfl
    exact h rfl
  simp only [classify, hother, h, if_false]

theorem classify_unknown {arg : Str} (hminus : arg.head? = some '-')
    (hnot : arg ∉ ['-', 'h'] :: ['-', 't'] :: ['-', 'c'] :: ['-', 'e'] :: counts) :
    classify arg = .unknown := by
  simp only [counts, List.mem_cons, List.not_mem_nil, or_false, not_or] at hnot
  simp only [classify, hnot, hminus, if_false, if_true]

/-- An option that needs a value, and has one. -/
theorem parse_opt_ok {perf perf' : PerfContext} {o : Opt} {text : Str}
    (h : assign perf text o = .ok perf') (rest : List Str) :
    parse perf (o.name :: text :: rest) = parse perf' rest := by
  simp only [parse, classify_name, h]

theorem parse_opt_error {perf : PerfContext} {o : Opt} {text : Str} {e : Stop}
    (h : assign perf text o = .error e) (rest : List Str) :
    parse perf (o.name :: text :: rest) = .error e := by
  simp only [parse, classify_name, h]

theorem parse_opt_outOfBounds (perf : PerfContext) (o : Opt) :
    parse perf [o.name] = .error .outOfBounds := by
  rw [parse, classify_name]

theorem reading_ok {α : Type} {number : Except Thrown α} {n : α} (h : number = .ok n)
    (f : α → PerfContext) : reading number f = .ok (f n) := by
  subst h
  rfl

theorem reading_error {α : Type} {number : Except Thrown α} {e : Thrown} (h : number = .error e)
    (f : α → PerfContext) : reading number f = .error (.thrown e) := by
  subst h
  rfl

theorem of_reading_ok {α : Type} {number : Except Thrown α} {f : α → PerfContext}
    {perf : PerfContext} (h : reading number f = .ok perf) :
    ∃ n, number = .ok n ∧ perf = f n := by
  cases number with
  | ok n => exact ⟨n, rfl, (Except.ok.inj h).symm⟩
  | error e => cases h

theorem of_reading_error {α : Type} {number : Except Thrown α} {f : α → PerfContext} {e : Stop}
    (h : reading number f = .error e) : ∃ e', number = .error e' ∧ e = .thrown e' := by
  cases number with
  | ok n => cases h
  | error e' => exact ⟨e', rfl, (Except.error.inj h).symm⟩

/-- The setting is read in one iteration. -/
theorem parse_says {args : List Str} {s : Setting} (h : Says args s) (perf : PerfContext)
    (rest : List Str) : parse perf (args ++ rest) = parse (s.apply perf) rest := by
  cases h with
  | tag => exact parse_opt_ok (o := .test) rfl rest
  | stream => exact parse_opt_ok (o := .test) rfl rest
  | core h => exact parse_opt_ok (o := .core) (reading_ok h _) rest
  | concurrency h => exact parse_opt_ok (o := .concurrency) (reading_ok h _) rest
  | messageSize h => exact parse_opt_ok (o := .messageSize) (reading_ok h _) rest
  | iterations h => exact parse_opt_ok (o := .iterations) (reading_ok h _) rest
  | warmup h => exact parse_opt_ok (o := .warmup) (reading_ok h _) rest
  | port h => exact parse_opt_ok (o := .port) (reading_ok h _) rest
  | epoll => rfl
  | address h =>
    rw [List.singleton_append, parse, classify_address h]
    rfl

/-- An option after which the loop goes on has said something. -/
theorem assign_says {perf perf' : PerfContext} {text : Str} {o : Opt}
    (h : assign perf text o = .ok perf') :
    ∃ s, Says [o.name, text] s ∧ perf' = s.apply perf := by
  cases o with
  | test =>
    simp only [assign] at h
    split at h
    · subst text
      exact ⟨_, .tag, (Except.ok.inj h).symm⟩
    · split at h
      · subst text
        exact ⟨_, .stream, (Except.ok.inj h).symm⟩
      · cases h
  | core =>
    rcases of_reading_ok h with ⟨n, hn, rfl⟩
    exact ⟨_, .core hn, rfl⟩
  | concurrency =>
    rcases of_reading_ok h with ⟨n, hn, rfl⟩
    exact ⟨_, .concurrency hn, rfl⟩
  | messageSize =>
    rcases of_reading_ok h with ⟨n, hn, rfl⟩
    exact ⟨_, .messageSize hn, rfl⟩
  | iterations =>
    rcases of_reading_ok h with ⟨n, hn, rfl⟩
    exact ⟨_, .iterations hn, rfl⟩
  | warmup =>
    rcases of_reading_ok h with ⟨n, hn, rfl⟩
    exact ⟨_, .warmup hn, rfl⟩
  | port =>
    rcases of_reading_ok h with ⟨n, hn, rfl⟩
    exact ⟨_, .port hn, rfl⟩

/-- An option at which the loop stops is to blame. -/
theorem assign_blames {perf : PerfContext} {text : Str} {o : Opt} {e : Stop}
    (h : assign perf text o = .error e) (rest : List Str) :
    Blames (o.name :: text :: rest) e := by
  have hcount : ∀ {name : Str} {f : UInt64 → PerfContext}, name ∈ counts →
      reading (stoul text) f = .error e → Blames (name :: text :: rest) e := by
    intro name f hname hreading
    rcases of_reading_error hreading with ⟨e', he', rfl⟩
    exact .count hname he'
  cases o with
  | test =>
    simp only [assign] at h
    split at h
    · cases h
    · split at h
      · cases h
      · obtain rfl := Except.error.inj h
        exact .unknownTest ‹_› ‹_›
  | core =>
    rcases of_reading_error h with ⟨e', he', rfl⟩
    exact .core he'
  | concurrency | messageSize | iterations | warmup | port => exact hcount (by decide) h

/-- The options with a number that is no core are read in the same way. -/
theorem exists_count {arg : Str} (h : arg ∈ counts) (perf : PerfContext) :
    ∃ o f, arg = Opt.name o ∧ ∀ text, assign perf text o = reading (stoul text) f := by
  simp only [counts, List.mem_cons, List.not_mem_nil, or_false] at h
  rcases h with h | h | h | h | h
  · exact ⟨.concurrency, _, h, fun _ => rfl⟩
  · exact ⟨.messageSize, _, h, fun _ => rfl⟩
  · exact ⟨.iterations, _, h, fun _ => rfl⟩
  · exact ⟨.warmup, _, h, fun _ => rfl⟩
  · exact ⟨.port, _, h, fun _ => rfl⟩

theorem exists_opt {arg : Str} (h : arg ∈ ['-', 't'] :: ['-', 'c'] :: counts) :
    ∃ o, arg = Opt.name o := by
  simp only [List.mem_cons] at h
  rcases h with h | h | h
  · exact ⟨.test, h⟩
  · exact ⟨.core, h⟩
  · rcases exists_count h {} with ⟨o, -, ho, -⟩
    exact ⟨o, ho⟩

/-- The loop stops at the argument that is to blame. -/
theorem parse_blames {args : List Str} {e : Stop} (h : Blames args e) (perf : PerfContext) :
    parse perf args = .error e := by
  cases h with
  | usage => rfl
  | unknownTest htag hstream =>
    exact parse_opt_error (o := .test) ((if_neg htag).trans (if_neg hstream)) _
  | unknownOption hminus hnot => rw [parse, classify_unknown hminus hnot]
  | core h => exact parse_opt_error (o := .core) (reading_error h _) _
  | count harg h =>
    rcases exists_count harg perf with ⟨o, f, rfl, hassign⟩
    exact parse_opt_error ((hassign _).trans (reading_error h f)) _
  | outOfBounds harg =>
    rcases exists_opt harg with ⟨o, rfl⟩
    exact parse_opt_outOfBounds perf o

/-! ## The loop -/

/-- What the first arguments are. -/
theorem first_cases (args : List Str) :
    args = [] ∨ (∃ e, Blames args e) ∨
      ∃ head rest s, Says head s ∧ args = head ++ rest ∧ rest.length < args.length := by
  cases args with
  | nil => exact .inl rfl
  | cons arg rest =>
    refine .inr ?_
    generalize harg : classify arg = a
    have hclass := classified arg
    rw [harg] at hclass
    cases hclass with
    | help h =>
      subst h
      exact .inl ⟨_, .usage⟩
    | @opt o h =>
      subst h
      cases rest with
      | nil =>
        refine .inl ⟨_, .outOfBounds ?_⟩
        cases o with
        | test | core | concurrency | messageSize | iterations | warmup | port => decide
      | cons text rest =>
        cases hassign : assign {} text o with
        | ok perf' =>
          rcases assign_says hassign with ⟨s, hsays, -⟩
          refine .inr ⟨_, rest, s, hsays, rfl, ?_⟩
          simp only [List.length_cons]
          omega
        | error e => exact .inl ⟨e, assign_blames hassign rest⟩
    | epoll h => exact .inr ⟨_, rest, _, .epoll, h ▸ rfl, Nat.lt_succ_self _⟩
    | unknown hminus hnot => exact .inl ⟨_, .unknownOption hminus hnot⟩
    | address h => exact .inr ⟨_, rest, _, .address h, rfl, Nat.lt_succ_self _⟩

/-- Arguments spell settings, up to the end or up to one that is to blame. -/
theorem exists_spelled (args : List Str) :
    ∃ before settings after, args = before ++ after ∧ Spells before settings ∧
      (after = [] ∨ ∃ e, Blames after e) := by
  generalize hn : args.length = n
  induction n using Nat.strongRecOn generalizing args with
  | ind n ih =>
    rcases first_cases args with rfl | hblames | ⟨head, rest, s, hsays, rfl, hlt⟩
    · exact ⟨[], [], [], rfl, .nil, .inl rfl⟩
    · exact ⟨[], [], args, rfl, .nil, .inr hblames⟩
    · rcases ih rest.length (hn ▸ hlt) rest rfl with ⟨before, settings, after, rfl, hspells, hend⟩
      exact ⟨head ++ before, s :: settings, after, (List.append_assoc ..).symm,
        .cons hsays hspells, hend⟩

theorem parse_spells {args : List Str} {settings : List Setting} (h : Spells args settings)
    (perf : PerfContext) (rest : List Str) :
    parse perf (args ++ rest) = parse (settings.foldl Setting.apply perf) rest := by
  induction h generalizing perf with
  | nil => rfl
  | cons hsays _ ih =>
    rw [List.append_assoc, parse_says hsays]
    exact ih _

/-! ## The members -/

/-- A member that a setting replaces or leaves alone ends as the last setting says. -/
theorem foldl_last {α : Type} (member : PerfContext → α) (member? : Setting → Option α)
    (hset : ∀ perf s, member (Setting.apply perf s) = (member? s).getD (member perf))
    (settings : List Setting) (perf : PerfContext) :
    member (settings.foldl Setting.apply perf) = last member? settings (member perf) := by
  induction settings generalizing perf with
  | nil => rfl
  | cons s settings ih =>
    rw [List.foldl_cons, ih, hset]
    unfold last
    cases hmember : member? s with
    | none => rw [List.filterMap_cons_none hmember, Option.getD_none]
    | some a => rw [List.filterMap_cons_some hmember, Option.getD_some, List.getLastD_cons]

theorem assigned_foldl (settings : List Setting) (perf : PerfContext) :
    Assigned settings perf (settings.foldl Setting.apply perf) where
  test := by
    have hcategory := foldl_last (fun perf => perf.test.1) Setting.category?
      (fun perf s => by cases s <;> rfl) settings perf
    have htype := foldl_last (fun perf => perf.test.2) (fun _ => none)
      (fun perf s => by cases s <;> rfl) settings perf
    have hnone : settings.filterMap (fun _ => (none : Option TestType)) = [] :=
      List.filterMap_eq_nil_iff.mpr fun _ _ => rfl
    exact Prod.ext hcategory (htype.trans (congrArg (·.getLastD perf.test.2) hnone))
  concurrency := foldl_last _ _ (fun perf s => by cases s <;> rfl) settings perf
  iterations := foldl_last _ _ (fun perf s => by cases s <;> rfl) settings perf
  messageSize := foldl_last _ _ (fun perf s => by cases s <;> rfl) settings perf
  warmup := foldl_last _ _ (fun perf s => by cases s <;> rfl) settings perf
  epoll := foldl_last _ _ (fun perf s => by cases s <;> rfl) settings perf
  serverAddress := foldl_last _ _ (fun perf s => by cases s <;> rfl) settings perf
  serverPort := foldl_last _ _ (fun perf s => by cases s <;> rfl) settings perf
  core := foldl_last _ _ (fun perf s => by cases s <;> rfl) settings perf

/-- The settings leave nothing open. -/
theorem Assigned.unique {settings : List Setting} {perf p q : PerfContext}
    (hp : Assigned settings perf p) (hq : Assigned settings perf q) : p = q := by
  rcases hp with ⟨h1, h2, h3, h4, h5, h6, h7, h8, h9⟩
  rcases hq with ⟨g1, g2, g3, g4, g5, g6, g7, g8, g9⟩
  cases p
  cases q
  simp only at *
  simp only [h1, h2, h3, h4, h5, h6, h7, h8, h9, g1, g2, g3, g4, g5, g6, g7, g8, g9]

/-! ## What a user writes -/

theorem stoul_digits (n : UInt64) : stoul (digits n.toNat) = .ok n := by
  have hread : Decimal.read (digits n.toNat) = some ⟨false, n.toNat⟩ :=
    Decimal.read_signed .none n.toNat
  unfold stoul
  rw [hread]
  simp only
  rw [if_pos n.toNat_lt_size, if_neg Bool.false_ne_true, UInt64.ofNat_toNat]

theorem stoi_digits (n : Int32) :
    stoi (if n.toInt < 0 then '-' :: digits n.toInt.natAbs else digits n.toInt.natAbs) = .ok n := by
  have hread : ∃ number, value number = n.toInt ∧
      Decimal.read (if n.toInt < 0 then '-' :: digits n.toInt.natAbs else digits n.toInt.natAbs) =
        some number := by
    split
    · refine ⟨⟨true, n.toInt.natAbs⟩, ?_, Decimal.read_signed .minus _⟩
      simp only [value, if_true]
      omega
    · refine ⟨⟨false, n.toInt.natAbs⟩, ?_, Decimal.read_signed .none _⟩
      simp only [value, Bool.false_eq_true, if_false]
      omega
  rcases hread with ⟨number, hvalue, hread⟩
  unfold stoi
  rw [hread]
  simp only [hvalue]
  rw [if_pos ⟨n.minValue_le_toInt, n.toInt_le⟩, Int32.ofInt_toInt]

theorem says_render {s : Setting} (h : s.Plain) : Says s.render s := by
  cases s with
  | test stream =>
    cases stream with
    | false => exact .tag
    | true => exact .stream
  | core n => exact .core (stoi_digits n)
  | concurrency n => exact .concurrency (stoul_digits n)
  | messageSize n => exact .messageSize (stoul_digits n)
  | iterations n => exact .iterations (stoul_digits n)
  | warmup n => exact .warmup (stoul_digits n)
  | port n => exact .port (stoul_digits n)
  | epoll => exact .epoll
  | address text => exact .address h

theorem spells_render {settings : List Setting} (h : ∀ s ∈ settings, s.Plain) :
    Spells (settings.flatMap Setting.render) settings := by
  induction settings with
  | nil => exact .nil
  | cons s settings ih =>
    rw [List.flatMap_cons]
    exact .cons (says_render (h s List.mem_cons_self))
      (ih fun t ht => h t (List.mem_cons_of_mem s ht))

/-! ## The two ways out -/

theorem parse_spelled {args : List Str} {settings : List Setting} (h : Spells args settings)
    (perf : PerfContext) : parse perf args = .ok (settings.foldl Setting.apply perf) := by
  have hparse := parse_spells h perf []
  rw [List.append_nil] at hparse
  exact hparse

theorem parse_stopped {before after : List Str} {settings : List Setting} {e : Stop}
    (h : Spells before settings) (hblames : Blames after e) (perf : PerfContext) :
    parse perf (before ++ after) = .error e :=
  (parse_spells h perf after).trans (parse_blames hblames _)

/-- The loop ends exactly on arguments that spell settings, and then every member is what
the last setting for it says. Settings that are written as arguments are read back. -/
theorem reads_settings (perf : PerfContext) :
    (∀ args perf', parse perf args = .ok perf' ↔
      ∃ settings, Spells args settings ∧ Assigned settings perf perf') ∧
    ∀ settings, (∀ s ∈ settings, s.Plain) →
      ∃ perf', parse perf (settings.flatMap Setting.render) = .ok perf' ∧
        Assigned settings perf perf' := by
  refine ⟨fun args perf' => ⟨fun h => ?_, ?_⟩, fun settings hplain => ?_⟩
  · rcases exists_spelled args with ⟨before, settings, after, rfl, hspells, rfl | ⟨e, hblames⟩⟩
    · rw [List.append_nil] at h ⊢
      obtain rfl := Except.ok.inj ((parse_spelled hspells perf).symm.trans h)
      exact ⟨settings, hspells, assigned_foldl settings perf⟩
    · cases (parse_stopped hspells hblames perf).symm.trans h
  · rintro ⟨settings, hspells, hassigned⟩
    rw [parse_spelled hspells, (assigned_foldl settings perf).unique hassigned]
  · exact ⟨_, parse_spelled (spells_render hplain) perf, assigned_foldl settings perf⟩

-- a port that is too large becomes another one, and a negative count is huge
example :
    parse {} [['-', 'p'], ['7', '0', '0', '0', '0'], ['-', 'o'], ['-', '1'], ['h']] =
      .ok { serverPort := 4464, concurrency := 18446744073709551615, serverAddress := ['h'] } := by
  decide

/-- The loop stops exactly at an argument that it cannot take, behind arguments that spell
settings; one of these is an option at the end that lacks its value. -/
theorem stops_iff (perf : PerfContext) (args : List Str) (e : Stop) :
    parse perf args = .error e ↔
      ∃ before settings after, args = before ++ after ∧ Spells before settings ∧
        Blames after e := by
  constructor
  · intro h
    rcases exists_spelled args with ⟨before, settings, after, rfl, hspells, rfl | ⟨e', hblames⟩⟩
    · rw [List.append_nil] at h
      cases (parse_spelled hspells perf).symm.trans h
    · obtain rfl := Except.error.inj ((parse_stopped hspells hblames perf).symm.trans h)
      exact ⟨before, settings, after, rfl, hspells, hblames⟩
  · rintro ⟨before, settings, after, rfl, hspells, hblames⟩
    exact parse_stopped hspells hblames perf

end Ucxpp.PerftestOptions
