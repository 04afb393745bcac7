import Mathlib.Data.Nat.Bitwise
import Ucxpp.Status

/-!
# ContextBuilder — context::builder and the parameters of ucp_init

Every `enable_*` method of the builder sets one thing and clears nothing, so the
order of the calls and their repetitions do not matter; `build` hands the three
members to `context::context`, which fills in the parameters. The constructor of
the builder gives two of the members a value. The third, `enable_mt_`, is what
the memory of the builder held, until `enable_mt` is called.
-/

namespace Ucxpp.ContextBuilder

/-! ## UCX -/

/-- `ucp_feature`. -/
inductive Feature where
  | tag
  | rma
  | amo32
  | amo64
  | wakeup
  | stream
  | am
deriving DecidableEq, Repr

/-- The number of the bit. -/
def Feature.bit : Feature → Nat
  | .tag => 0
  | .rma => 1
  | .amo32 => 2
  | .amo64 => 3
  | .wakeup => 4
  | .stream => 5
  | .am => 6

/-- `UCP_FEATURE_TAG` and so on. -/
def Feature.mask : Feature → UInt64
  | .tag => 0x1
  | .rma => 0x2
  | .amo32 => 0x4
  | .amo64 => 0x8
  | .wakeup => 0x10
  | .stream => 0x20
  | .am => 0x40

/-- `UCP_PARAM_FIELD_FEATURES`. -/
def fieldFeatures : UInt64 := 0x1

/-- `UCP_PARAM_FIELD_MT_WORKERS_SHARED`. -/
def fieldMtWorkersShared : UInt64 := 0x20

/-- `ucp_params_t`, the fields that the library writes. -/
structure UcpParams where
  fieldMask : UInt64
  features : UInt64
  mtWorkersShared : Int
deriving DecidableEq, Repr

/-- What UCX reads: the fields that the mask announces. -/
structure Announced where
  features : Option UInt64
  mtWorkersShared : Option Int
deriving DecidableEq, Repr

def UcpParams.announced (self : UcpParams) : Announced where
  features := if self.fieldMask &&& fieldFeatures ≠ 0 then some self.features else none
  mtWorkersShared :=
    if self.fieldMask &&& fieldMtWorkersShared ≠ 0 then some self.mtWorkersShared else none

/-- The calls of `context::context` into UCX, with those of its `config`. -/
inductive UcpCall where
  | configRead
  | init (params : UcpParams)
  | configPrint
deriving DecidableEq, Repr

/-! ## The builder -/

/-- `context::builder`. -/
structure Builder where
  features : UInt64
  printConfig : Bool
  enableMt : Bool
deriving DecidableEq, Repr

/-- What the memory of the builder and of the local `ucp_params` held. -/
structure Memory where
  builder : Builder
  params : UcpParams
deriving DecidableEq, Repr

/-- The constructor has no initialiser for `enable_mt_`. -/
def Builder.construct (mem : Builder) : Builder :=
  { mem with features := 0, printConfig := false }

section

variable (self : Builder)

/-- `features_ |= feature`. -/
def enableFeature (feature : Feature) : Builder :=
  { self with features := self.features ||| feature.mask }

def enablePrintConfig : Builder :=
  { self with printConfig := true }

def enableWakeup : Builder :=
  enableFeature self .wakeup

def enableTag : Builder :=
  enableFeature self .tag

def enableStream : Builder :=
  enableFeature self .stream

def enableAm : Builder :=
  enableFeature self .am

def enableRma : Builder :=
  enableFeature self .rma

def enableAmo32 : Builder :=
  enableFeature self .amo32

def enableAmo64 : Builder :=
  enableFeature self .amo64

def enableMt : Builder :=
  { self with enableMt := true }

end

inductive Call where
  | enablePrintConfig
  | enableWakeup
  | enableTag
  | enableStream
  | enableAm
  | enableRma
  | enableAmo32
  | enableAmo64
  | enableMt
deriving DecidableEq, Repr

def call (self : Builder) : Call → Builder
  | .enablePrintConfig => enablePrintConfig self
  | .enableWakeup => enableWakeup self
  | .enableTag => enableTag self
  | .enableStream => enableStream self
  | .enableAm => enableAm self
  | .enableRma => enableRma self
  | .enableAmo32 => enableAmo32 self
  | .enableAmo64 => enableAmo64 self
  | .enableMt => enableMt self

/-! ## The context -/

/-- `ucp_params` in `context::context`, a local in memory that held `mem`. -/
def contextParams (mem : UcpParams) (features : UInt64) (enableMt : Bool) : UcpParams :=
  let params := { mem with fieldMask := fieldFeatures, features := features }
  if enableMt then
    { params with fieldMask := params.fieldMask ||| fieldMtWorkersShared, mtWorkersShared := 1 }
  else
    params

section

-- UCX answers each call with a status.
variable (statusString : UcsStatus → String) (answer : UcpCall → UcsStatus)

/-- `context::context`: the calls that it makes, and whether it throws. -/
def newContext (mem : UcpParams) (features : UInt64) (printConfig enableMt : Bool) :
    List UcpCall × Except String Unit :=
  match checkUcsStatus statusString (answer .configRead) "failed to read ucp config" with
  | .error text => ([.configRead], .error text)
  | .ok () =>
    let params := contextParams mem features enableMt
    match checkUcsStatus statusString (answer (.init params)) "failed to init ucp" with
    | .error text => ([.configRead, .init params], .error text)
    | .ok () =>
      ([.configRead, .init params] ++ if printConfig then [.configPrint] else [], .ok ())

/-- `build`. -/
def Builder.build (self : Builder) (mem : UcpParams) : List UcpCall × Except String Unit :=
  newContext statusString answer mem self.features self.printConfig self.enableMt

/-- A builder is constructed, receives the calls, and builds. -/
def buildAfter (mem : Memory) (calls : List Call) : List UcpCall × Except String Unit :=
  (calls.foldl call (.construct mem.builder)).build statusString answer mem.params

end

/-! ## What was asked for -/

/-- The feature that a call asks for. -/
def Call.feature : Call → Option Feature
  | .enableWakeup => some .wakeup
  | .enableTag => some .tag
  | .enableStream => some .stream
  | .enableAm => some .am
  | .enableRma => some .rma
  | .enableAmo32 => some .amo32
  | .enableAmo64 => some .amo64
  | .enablePrintConfig | .enableMt => none

/-- The bits of the word are those of the requested features. -/
def FeaturesAsked (calls : List Call) (features : UInt64) : Prop :=
  ∀ i, features.toNat.testBit i = true ↔ ∃ c ∈ calls, ∃ f, c.feature = some f ∧ f.bit = i

/-- The parameters and the output of a build are what the calls ask for. The
configuration is printed when the context has been built. -/
structure AsAsked (calls : List Call) (out : List UcpCall × Except String Unit) : Prop where
  features : ∀ p, .init p ∈ out.1 → ∃ word,
    p.announced.features = some word ∧ FeaturesAsked calls word
  mtWorkersShared : ∀ p, .init p ∈ out.1 →
    (p.announced.mtWorkersShared ≠ none ↔ .enableMt ∈ calls)
  printed : out.2 = .ok () → (.configPrint ∈ out.1 ↔ .enablePrintConfig ∈ calls)

/-- Two builds pass the same parameters to `ucp_init`. -/
def SameParams (out out' : List UcpCall × Except String Unit) : Prop :=
  ∀ p p', .init p ∈ out.1 → .init p' ∈ out'.1 → p.announced = p'.announced

/-! ## The calls of a builder -/

/-- Calls that can only make a property true: it holds afterwards iff it held
before, or a call has made it true. -/
theorem foldl_iff {α β : Type*} {step : α → β → α} (P : α → Prop) (Q : β → Prop)
    (hstep : ∀ a b, P (step a b) ↔ P a ∨ Q b) (a : α) (bs : List β) :
    P (bs.foldl step a) ↔ P a ∨ ∃ b ∈ bs, Q b := by
  induction bs generalizing a with
  | nil => simp
  | cons b bs ih =>
    rw [List.foldl_cons, ih, hstep, or_assoc]
    simp only [List.mem_cons, or_and_right, exists_or, exists_eq_left]

theorem toNat_mask (f : Feature) : f.mask.toNat = 2 ^ f.bit := by
  cases f <;> rfl

theorem testBit_mask {f : Feature} {i : Nat} : f.mask.toNat.testBit i = true ↔ f.bit = i := by
  rw [toNat_mask, Nat.testBit_two_pow]
  exact decide_eq_true_iff

theorem testBit_enableFeature {self : Builder} {f : Feature} {i : Nat} :
    (enableFeature self f).features.toNat.testBit i = true ↔
      self.features.toNat.testBit i = true ∨ f.bit = i := by
  rw [enableFeature, UInt64.toNat_or, Nat.testBit_or, Bool.or_eq_true, testBit_mask]

/-- A call adds the bit of its own feature and no other. -/
theorem testBit_call (i : Nat) (self : Builder) (c : Call) :
    (call self c).features.toNat.testBit i = true ↔
      self.features.toNat.testBit i = true ∨ ∃ f, c.feature = some f ∧ f.bit = i := by
  cases c with
  | enablePrintConfig | enableMt =>
    refine (or_iff_left ?_).symm
    rintro ⟨f, hf, -⟩
    cases hf
  | enableWakeup | enableTag | enableStream | enableAm | enableRma | enableAmo32 | enableAmo64 =>
    refine testBit_enableFeature.trans (or_congr_right ?_)
    simp only [Call.feature, Option.some.injEq, exists_eq_left']

theorem printConfig_call (self : Builder) (c : Call) :
    (call self c).printConfig = true ↔ self.printConfig = true ∨ c = .enablePrintConfig := by
  cases c with
  | enablePrintConfig => exact iff_of_true rfl (.inr rfl)
  | enableWakeup | enableTag | enableStream | enableAm | enableRma | enableAmo32 | enableAmo64
  | enableMt => exact (or_iff_left fun h => nomatch h).symm

theorem enableMt_call (self : Builder) (c : Call) :
    (call self c).enableMt = true ↔ self.enableMt = true ∨ c = .enableMt := by
  cases c with
  | enableMt => exact iff_of_true rfl (.inr rfl)
  | enableWakeup | enableTag | enableStream | enableAm | enableRma | enableAmo32 | enableAmo64
  | enablePrintConfig => exact (or_iff_left fun h => nomatch h).symm

section

variable (mem : Builder) (calls : List Call)

theorem featuresAsked_foldl :
    FeaturesAsked calls (calls.foldl call (.construct mem)).features := by
  intro i
  have hfold := foldl_iff (fun b : Builder => b.features.toNat.testBit i = true)
    (fun c : Call => ∃ f, c.feature = some f ∧ f.bit = i) (testBit_call i) (.construct mem) calls
  refine hfold.trans (or_iff_right fun h => ?_)
  have hzero : Nat.testBit 0 i = true := h
  rw [Nat.zero_testBit] at hzero
  cases hzero

theorem printConfig_foldl :
    (calls.foldl call (.construct mem)).printConfig = true ↔
      .enablePrintConfig ∈ calls := by
  have hfold := foldl_iff (fun b : Builder => b.printConfig = true)
    (fun c : Call => c = .enablePrintConfig) printConfig_call (.construct mem) calls
  rw [exists_eq_right] at hfold
  exact hfold.trans (or_iff_right Bool.false_ne_true)

/-- The one member whose value may come from the memory. -/
theorem enableMt_foldl :
    (calls.foldl call (.construct mem)).enableMt = true ↔
      mem.enableMt = true ∨ .enableMt ∈ calls := by
  have hfold := foldl_iff (fun b : Builder => b.enableMt = true)
    (fun c : Call => c = .enableMt) enableMt_call (.construct mem) calls
  rw [exists_eq_right] at hfold
  exact hfold

end

/-! ## The parameters -/

section

variable {statusString : UcsStatus → String} {answer : UcpCall → UcsStatus} {params : UcpParams}
  {features : UInt64} {printConfig mt : Bool}

/-- The mask announces the features always, and the sharing with its own bit only. -/
theorem masks :
    fieldFeatures &&& fieldFeatures ≠ 0 ∧ fieldFeatures &&& fieldMtWorkersShared = 0 ∧
      (fieldFeatures ||| fieldMtWorkersShared) &&& fieldFeatures ≠ 0 ∧
      (fieldFeatures ||| fieldMtWorkersShared) &&& fieldMtWorkersShared ≠ 0 := by
  decide

theorem announced_contextParams :
    (contextParams params features mt).announced =
      ⟨some features, if mt then some 1 else none⟩ := by
  rcases masks with ⟨hfeatures, hnone, hfeatures', hmt⟩
  cases mt with
  | false =>
    simp only [contextParams, UcpParams.announced, Bool.false_eq_true, if_false, if_pos hfeatures,
      if_neg (not_not.mpr hnone)]
  | true =>
    simp only [contextParams, UcpParams.announced, if_true, if_pos hfeatures', if_pos hmt]

theorem params_of_init {p : UcpParams}
    (h : .init p ∈ (newContext statusString answer params features printConfig mt).1) :
    p = contextParams params features mt := by
  unfold newContext at h
  split at h
  · simp at h
  · simp only at h
    split at h
    · simpa using h
    · cases printConfig <;> simpa using h

theorem print_iff
    (h : (newContext statusString answer params features printConfig mt).2 = .ok ()) :
    .configPrint ∈ (newContext statusString answer params features printConfig mt).1 ↔
      printConfig = true := by
  unfold newContext at h ⊢
  split at h
  · cases h
  · simp only at h ⊢
    split at h
    · cases h
    · cases printConfig <;> simp

end

/-! ## What is built -/

variable (statusString : UcsStatus → String)

section

variable {statusString} {answer : UcpCall → UcsStatus} {mem : Memory} {calls : List Call}

/-- The features that are passed are those that were asked for, and the workers are
shared if `enable_mt` was called or the memory said so. -/
theorem announced_of_init {p : UcpParams}
    (h : .init p ∈ (buildAfter statusString answer mem calls).1) :
    (∃ word, p.announced.features = some word ∧ FeaturesAsked calls word) ∧
      (p.announced.mtWorkersShared ≠ none ↔
        mem.builder.enableMt = true ∨ .enableMt ∈ calls) := by
  rw [params_of_init h, announced_contextParams]
  refine ⟨⟨_, rfl, featuresAsked_foldl mem.builder calls⟩, ?_⟩
  rw [← enableMt_foldl]
  cases (calls.foldl call (.construct mem.builder)).enableMt <;> simp

theorem asAsked_of_defined (hmt : .enableMt ∈ calls ∨ mem.builder.enableMt = false) :
    AsAsked calls (buildAfter statusString answer mem calls) where
  features := fun _ hp => (announced_of_init hp).1
  mtWorkersShared := by
    intro p hp
    rw [(announced_of_init hp).2]
    refine or_iff_right_of_imp fun hmem => ?_
    refine hmt.resolve_right fun hfalse => ?_
    rw [hmem] at hfalse
    cases hfalse
  printed := fun hbuilt => (print_iff hbuilt).trans (printConfig_foldl mem.builder calls)

/-- Where the calls into UCX succeed, parameters reach `ucp_init`. -/
theorem exists_init (statusString : UcsStatus → String) (mem : Memory) (calls : List Call) :
    ∃ p, .init p ∈ (buildAfter statusString (fun _ => .ok) mem calls).1 := by
  refine ⟨contextParams mem.params (calls.foldl call (.construct mem.builder)).features
    (calls.foldl call (.construct mem.builder)).enableMt, ?_⟩
  simp [buildAfter, Builder.build, newContext]

/-- What is announced of a word of features is the word. -/
theorem word_unique {calls' : List Call} (hsame : ∀ c, c ∈ calls ↔ c ∈ calls') {w w' : UInt64}
    (hw : FeaturesAsked calls w) (hw' : FeaturesAsked calls' w') : w = w' := by
  apply UInt64.toNat_inj.mp
  apply Nat.eq_of_testBit_eq
  intro i
  rw [Bool.eq_iff_iff, hw i, hw' i]
  simp only [hsame]

/-- Two builders that received the same calls differ at most in what their memory
held for `enable_mt_`. -/
theorem sameParams_of_defined {answer' : UcpCall → UcsStatus} {mem' : Memory}
    {calls' : List Call} (hsame : ∀ c, c ∈ calls ↔ c ∈ calls')
    (hmt : .enableMt ∈ calls ∨ mem.builder.enableMt = false ∧ mem'.builder.enableMt = false) :
    SameParams (buildAfter statusString answer mem calls)
      (buildAfter statusString answer' mem' calls') := by
  intro p p' hp hp'
  rw [params_of_init hp, params_of_init hp', announced_contextParams, announced_contextParams]
  have hword := word_unique hsame (featuresAsked_foldl mem.builder calls)
    (featuresAsked_foldl mem'.builder calls')
  have hshared : (calls.foldl call (.construct mem.builder)).enableMt =
      (calls'.foldl call (.construct mem'.builder)).enableMt := by
    rw [Bool.eq_iff_iff, enableMt_foldl, enableMt_foldl, ← hsame]
    rcases hmt with hcalled | ⟨hmem, hmem'⟩
    · exact iff_of_true (.inr hcalled) (.inr hcalled)
    · rw [hmem, hmem']
  rw [hword, hshared]

end

/-- Two builders that receive the same calls, in any order and any number of times,
lead to what the calls ask for and to the same parameters, iff `enable_mt` is among
the calls or the memory of both held `false` for `enable_mt_`. -/
theorem built_as_asked_iff {calls calls' : List Call} (hsame : ∀ c, c ∈ calls ↔ c ∈ calls')
    (mem mem' : Memory) :
    (∀ answer, AsAsked calls (buildAfter statusString answer mem calls) ∧
        AsAsked calls' (buildAfter statusString answer mem' calls') ∧
        SameParams (buildAfter statusString answer mem calls)
          (buildAfter statusString answer mem' calls')) ↔
      .enableMt ∈ calls ∨ mem.builder.enableMt = false ∧ mem'.builder.enableMt = false := by
  constructor
  · intro hasked
    rcases hasked fun _ => .ok with ⟨h, h', -⟩
    -- the parameters of both builds, which UCX accepts
    rcases exists_init statusString mem calls with ⟨p, hp⟩
    rcases exists_init statusString mem' calls' with ⟨p', hp'⟩
    have hiff := h.mtWorkersShared p hp
    have hiff' := h'.mtWorkersShared p' hp'
    rw [(announced_of_init hp).2] at hiff
    rw [(announced_of_init hp').2, ← hsame] at hiff'
    by_cases hcalled : .enableMt ∈ calls
    · exact .inl hcalled
    · refine .inr ⟨?_, ?_⟩
      · exact Bool.eq_false_of_not_eq_true fun hmem => hcalled (hiff.mp (.inl hmem))
      · exact Bool.eq_false_of_not_eq_true fun hmem => hcalled (hiff'.mp (.inl hmem))
  · intro hmt answer
    refine ⟨asAsked_of_defined (hmt.imp_right And.left), asAsked_of_defined ?_,
      sameParams_of_defined hsame hmt⟩
    exact hmt.imp (hsame _).mp And.right

/-! ### Two memories -/

/-- Memory with this byte for `enable_mt_`, and zeros. -/
def memory (byte : Bool) : Memory :=
  ⟨⟨0, false, byte⟩, ⟨0, 0, 0⟩⟩

/-- A build whose calls into UCX all succeed. -/
def accepted (calls : List Call) (mem : Memory) : List UcpCall × Except String Unit :=
  buildAfter (fun _ => "") (fun _ => .ok) mem calls

/-- The calls of the benchmark with `-e`, in one order, and in another with a
repetition. -/
theorem built_as_asked_twice :
    AsAsked [.enableTag, .enableWakeup]
        (accepted [.enableTag, .enableWakeup] (memory false)) ∧
      AsAsked [.enableWakeup, .enableTag, .enableWakeup]
        (accepted [.enableWakeup, .enableTag, .enableWakeup] (memory false)) ∧
      SameParams (accepted [.enableTag, .enableWakeup] (memory false))
        (accepted [.enableWakeup, .enableTag, .enableWakeup] (memory false)) := by
  have hsame : ∀ c, c ∈ [Call.enableTag, .enableWakeup] ↔
      c ∈ [Call.enableWakeup, .enableTag, .enableWakeup] := by
    intro c
    cases c <;> decide
  exact (built_as_asked_iff (fun _ => "") hsame (memory false) (memory false)).mpr
    (.inr ⟨rfl, rfl⟩) fun _ => .ok

/-- The same call in two memories: one context is not multi-threaded, the other is. -/
theorem enableMt_left_to_memory :
    ∃ p p', .init p ∈ (accepted [.enableTag] (memory false)).1 ∧
      .init p' ∈ (accepted [.enableTag] (memory true)).1 ∧
      p.announced.mtWorkersShared = none ∧ p'.announced.mtWorkersShared = some 1 ∧
      ¬AsAsked [.enableTag] (accepted [.enableTag] (memory true)) := by
  rcases exists_init (fun _ => "") (memory false) [.enableTag] with ⟨p, hp⟩
  rcases exists_init (fun _ => "") (memory true) [.enableTag] with ⟨p', hp'⟩
  have hnone : p.announced.mtWorkersShared = none := by
    rw [params_of_init hp, announced_contextParams]
    rfl
  have hshared : p'.announced.mtWorkersShared = some 1 := by
    rw [params_of_init hp', announced_contextParams]
    rfl
  refine ⟨p, p', hp, hp', hnone, hshared, fun hasked => ?_⟩
  have hmem : Call.enableMt ∈ [Call.enableTag] := by
    apply (hasked.mtWorkersShared p' hp').mp
    rw [hshared]
    exact Option.some_ne_none 1
  simp at hmem

end Ucxpp.ContextBuilder
