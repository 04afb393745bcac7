import Ucxpp.Sockets

/-!
# SocketsOwned — the descriptors that are opened are closed

The calls that only throw leave the descriptors alone (`called_ok`, `called_error`), and a
scope that holds a channel closes it when it throws (`holding_owning`). The loop over the
addresses closes the sockets that it gives up, so it has opened at most the one that it
returns: that of the first address that does (`connectLoop_exec`).
-/

namespace Ucxpp.Sockets

open Resource (World Owning)

section

variable {ι : Type} (strerror gaiStrerror : Int → String) {answers : SysCall ι → Except Errno Nat}
  {resolve : Except Int (List ι)}

/-! ## The calls -/

theorem opened_ok {call : SysCall ι} {number : Nat} (h : answers call = .ok number) (kind : Kind)
    (message : String) (w : World Kind) :
    (opened strerror answers call kind message).exec w =
      (.ok ⟨number, w.fresh kind⟩, w.acquire kind) := by
  rw [opened, h]
  rfl

theorem opened_error {call : SysCall ι} (h : ¬Succeeds answers call) (kind : Kind)
    (message : String) (w : World Kind) :
    ∃ text, (opened strerror answers call kind message).exec w = (.error text, w) := by
  unfold opened
  cases hcall : answers call with
  | error errno => exact ⟨_, rfl⟩
  | ok number => exact absurd ⟨number, hcall⟩ h

theorem called_ok {call : SysCall ι} (h : Succeeds answers call) (message : String)
    (w : World Kind) : (called strerror answers call message).exec w = (.ok (), w) := by
  rcases h with ⟨n, h⟩
  rw [called, h]
  rfl

theorem called_error {call : SysCall ι} (h : ¬Succeeds answers call) (message : String)
    (w : World Kind) :
    ∃ text, (called strerror answers call message).exec w = (.error text, w) := by
  unfold called
  cases hcall : answers call with
  | error errno => exact ⟨_, rfl⟩
  | ok n => exact absurd ⟨n, hcall⟩ h

/-- `fcntl` succeeds on the socket, twice. -/
def Nonblocks (answers : SysCall ι → Except Errno Nat) (s : Sock ι) : Prop :=
  Succeeds answers (.getFlags s) ∧ Succeeds answers (.setFlags s)

theorem setNonblocking_ok {c : Channel ι} (h : Nonblocks answers c.sock) (w : World Kind) :
    (setNonblocking strerror answers c).exec w = (.ok (), w) :=
  (Resource.exec_bind_ok (called_ok strerror h.1 _ w)).trans (called_ok strerror h.2 _ w)

theorem setNonblocking_error {c : Channel ι} (h : ¬Nonblocks answers c.sock) (w : World Kind) :
    ∃ text, (setNonblocking strerror answers c).exec w = (.error text, w) := by
  by_cases hget : Succeeds answers (.getFlags c.sock)
  · rcases called_error strerror (fun hset => h ⟨hget, hset⟩)
      "failed to set fcntl flags" w with ⟨text, hset⟩
    exact ⟨text, (Resource.exec_bind_ok (called_ok strerror hget _ w)).trans hset⟩
  · rcases called_error strerror hget "failed to get fcntl flags" w with
      ⟨text, hget⟩
    exact ⟨text, Resource.exec_bind_error hget⟩

/-! ## A channel that is held -/

/-- The body of a scope returns the channel that the scope holds, or throws, and leaves
the descriptors alone. -/
def Keeps (channel : Channel ι) (body : Code (Channel ι)) : Prop :=
  ∀ w, body.exec w = (.ok channel, w) ∨ ∃ text, body.exec w = (.error text, w)

theorem holding_ok {channel : Channel ι} {body : Code (Channel ι)} {w : World Kind}
    (h : body.exec w = (.ok channel, w)) : (holding channel body).exec w = (.ok channel, w) := by
  rw [holding, Resource.exec_tryCatch, h]

theorem holding_error {channel : Channel ι} {body : Code (Channel ι)} {w : World Kind}
    {text : String} (h : body.exec w = (.error text, w)) :
    (holding channel body).exec w = (.error text, w.release channel.fd.handle) := by
  rw [holding, Resource.exec_tryCatch, h]
  rfl

/-- The channel is all that has been opened since `w`: it is returned, or it is closed. -/
theorem holding_owning {channel : Channel ι} {body code : Code (Channel ι)} {w w' : World Kind}
    (hkeeps : Keeps channel body) (hlive : w'.live = w.live ++ [channel.fd.handle])
    (hmisused : w'.misused = w.misused) (hnot : channel.fd.handle ∉ w.live)
    (hexec : code.exec w = (holding channel body).exec w') :
    Owning (fun c => [c.fd.handle]) Channel.destroy code w := by
  have hclosed : w.Same (w'.release channel.fd.handle) :=
    World.same_release hlive hmisused hnot
  rcases hkeeps w' with hok | ⟨text, herror⟩
  · rw [Resource.owning_ok_iff (hexec.trans (holding_ok hok))]
    exact ⟨hlive, hmisused, hclosed⟩
  · exact (Resource.owning_error_iff (hexec.trans (holding_error herror))).mpr hclosed

theorem keeps_setNonblocking (channel : Channel ι) :
    Keeps channel do
      setNonblocking strerror answers channel
      return channel := by
  intro w
  by_cases h : Nonblocks answers channel.sock
  · exact .inl (Resource.exec_bind_ok (setNonblocking_ok strerror h w))
  · rcases setNonblocking_error strerror h w with ⟨text, herror⟩
    exact .inr ⟨text, Resource.exec_bind_error herror⟩

/-! ## The event loop -/

theorem destroy_exec (l : EventLoop) (w : World Kind) :
    (l.destroy.exec w).2 =
      (let w' := if 0 < l.closeEventFd.number then w.release l.closeEventFd.handle else w
       if 0 < l.epollFd.number then w'.release l.epollFd.handle else w') := by
  unfold EventLoop.destroy
  by_cases hclose : 0 < l.closeEventFd.number
  · by_cases hepoll : 0 < l.epollFd.number
    · simp only [if_pos hclose, if_pos hepoll]
      rfl
    · simp only [if_pos hclose, if_neg hepoll]
      rfl
  · by_cases hepoll : 0 < l.epollFd.number
    · simp only [if_neg hclose, if_pos hepoll]
      rfl
    · simp only [if_neg hclose, if_neg hepoll]
      rfl

/-- The destructor closes both descriptors exactly if neither of them is 0. -/
theorem destroy_closes_iff (epoll event : Nat) (w : World Kind) :
    w.Same ((EventLoop.destroy ⟨⟨epoll, w.fresh .epoll⟩,
        ⟨event, (w.acquire .epoll).fresh .event⟩⟩).exec ((w.acquire .epoll).acquire .event)).2 ↔
      epoll ≠ 0 ∧ event ≠ 0 := by
  have hnot : w.fresh .epoll ∉ w.live := w.fresh_not_mem .epoll
  have hevent : (w.acquire .epoll).Same
      (((w.acquire .epoll).acquire .event).release ((w.acquire .epoll).fresh .event)) :=
    (w.acquire .epoll).release_acquire .event
  rw [destroy_exec]
  constructor
  · intro hsame
    have hlive := congrArg List.length hsame.live
    constructor
    · rintro rfl
      -- the epoll descriptor stays open
      simp only [Nat.lt_irrefl, if_false] at hlive
      split at hlive
      · rw [hevent.live] at hlive
        simp [World.acquire] at hlive
      · simp [World.acquire] at hlive
    · rintro rfl
      -- the event descriptor stays open
      simp only [Nat.lt_irrefl, if_false] at hlive
      split at hlive
      · rw [(w.release_acquire_acquire .epoll .event).1] at hlive
        simp at hlive
      · simp [World.acquire] at hlive
  · rintro ⟨hepoll, hclose⟩
    simp only [if_pos (Nat.pos_of_ne_zero hepoll), if_pos (Nat.pos_of_ne_zero hclose)]
    exact World.same_release hevent.live hevent.misused hnot

theorem newEventLoop_owning_iff (w : World Kind) :
    Owning (fun l => [l.epollFd.handle, l.closeEventFd.handle]) EventLoop.destroy
        (newEventLoop strerror answers) w ↔
      Entry.eventLoop.Closed answers resolve := by
  unfold newEventLoop
  by_cases hcreate : Succeeds answers .epollCreate
  · rcases hcreate with ⟨epoll, hcreate⟩
    have hopened := opened_ok strerror hcreate .epoll "failed to create epoll fd" w
    have hiff : Entry.eventLoop.Closed answers resolve ↔ epoll ≠ 0 ∧
        (∃ event, answers .eventfd = .ok event ∧ event ≠ 0) ∧ Succeeds answers .epollAddClose := by
      constructor
      · intro h
        exact h epoll hcreate
      · intro h epoll' hcreate'
        cases hcreate.symm.trans hcreate'
        exact h
    rw [hiff]
    by_cases heventfd : Succeeds answers .eventfd
    · rcases heventfd with ⟨event, heventfd⟩
      have hopened' := opened_ok strerror heventfd .event
        "failed to create close event fd" (w.acquire .epoll)
      by_cases hadd : Succeeds answers .epollAddClose
      · have hcalled := called_ok strerror hadd
          "failed to add close event fd to epoll" ((w.acquire .epoll).acquire .event)
        rw [Resource.owning_ok_iff ((Resource.exec_bind_ok hopened).trans
          ((Resource.exec_bind_ok hopened').trans (Resource.exec_bind_ok hcalled)))]
        have hlive : ((w.acquire .epoll).acquire .event).live =
            w.live ++ [w.fresh .epoll, (w.acquire .epoll).fresh .event] := List.append_assoc ..
        constructor
        · intro h
          rcases (destroy_closes_iff epoll event w).mp h.2.2 with ⟨hepoll, hevent⟩
          exact ⟨hepoll, ⟨event, heventfd, hevent⟩, hadd⟩
        · rintro ⟨hepoll, ⟨event', heventfd', hevent⟩, -⟩
          cases heventfd.symm.trans heventfd'
          exact ⟨hlive, rfl, (destroy_closes_iff epoll event w).mpr ⟨hepoll, hevent⟩⟩
      · -- both descriptors are lost
        rcases called_error strerror hadd
          "failed to add close event fd to epoll" ((w.acquire .epoll).acquire .event) with
          ⟨text, hcalled⟩
        rw [Resource.owning_error_iff ((Resource.exec_bind_ok hopened).trans
          ((Resource.exec_bind_ok hopened').trans (Resource.exec_bind_error hcalled)))]
        exact iff_of_false (Resource.not_same_append (List.append_assoc ..)) fun h => hadd h.2.2
    · -- the epoll descriptor is lost
      rcases opened_error strerror heventfd .event
        "failed to create close event fd" (w.acquire .epoll) with ⟨text, hopened'⟩
      rw [Resource.owning_error_iff ((Resource.exec_bind_ok hopened).trans
        (Resource.exec_bind_error hopened'))]
      refine iff_of_false (Resource.not_same_acquire w .epoll) ?_
      rintro ⟨-, ⟨event, hevent, -⟩, -⟩
      exact heventfd ⟨event, hevent⟩
  · rcases opened_error strerror hcreate .epoll "failed to create epoll fd" w with
      ⟨text, hopened⟩
    rw [Resource.owning_error_iff (Resource.exec_bind_error hopened)]
    exact iff_of_true (.refl w) fun epoll h => absurd ⟨epoll, h⟩ hcreate

/-! ## The listener -/

theorem isOk_iff {call : SysCall ι} : (answers call).isOk = true ↔ Succeeds answers call := by
  unfold Succeeds
  cases answers call with
  | ok n => exact iff_of_true rfl ⟨n, rfl⟩
  | error errno => exact iff_of_false Bool.false_ne_true fun ⟨n, h⟩ => by cases h

/-- `bind` succeeds on the address. -/
def bindable (answers : SysCall ι → Except Errno Nat) (p : ι) : Bool :=
  (answers (.bind p)).isOk

variable (answers) in
/-- The socket is bound to the first address that it can be bound to. -/
theorem bindLoop_exec (addresses : List ι) (w : World Kind) :
    (bindLoop strerror answers addresses).exec w =
      (.ok (addresses.find? (bindable answers)), w) := by
  induction addresses with
  | nil => rfl
  | cons p rest ih =>
    rw [bindLoop, Resource.exec_tryCatch]
    by_cases hbind : Succeeds answers (.bind p)
    · have hfirst : bindable answers p = true := isOk_iff.mpr hbind
      rw [Resource.exec_bind_ok (called_ok strerror hbind _ w), List.find?_cons_of_pos hfirst]
      rfl
    · rcases called_error strerror hbind "failed to bind" w with ⟨text, hcalled⟩
      have hskip : ¬bindable answers p = true := fun h => hbind (isOk_iff.mp h)
      rw [Resource.exec_bind_error hcalled, List.find?_cons_of_neg hskip]
      exact ih

/-- What must succeed after `socket`. -/
def Listens (answers : SysCall ι → Except Errno Nat) (resolve : Except Int (List ι)) : Prop :=
  Succeeds answers .setReuseAddr ∧
    (∃ addresses, resolve = .ok addresses ∧ ∃ p ∈ addresses, Succeeds answers (.bind p)) ∧
      Succeeds answers .listen

section

variable {number : Nat} (errno : Errno) (w : World Kind)

/-- The channel gets the socket, which is all that is open. -/
theorem newTcpListener_listens (hsocket : answers (.socket .listener) = .ok number)
    (h : Listens answers resolve) :
    ∃ w', (newTcpListener strerror gaiStrerror answers resolve errno).exec w =
        (holding (⟨.listener, number, w.fresh .socket⟩ : Channel ι) (do
          setNonblocking strerror answers ⟨.listener, number, w.fresh .socket⟩
          return ⟨.listener, number, w.fresh .socket⟩)).exec w' ∧
      (w.acquire .socket).Same w' := by
  rcases h with ⟨⟨n, hreuse⟩, ⟨addresses, hresolve, p, hmem, hbind⟩, hlisten⟩
  refine ⟨_, ?_, (w.acquire .socket).release_acquire .servinfo⟩
  have hfound : (addresses.find? (bindable answers)).isSome = true :=
    List.find?_isSome.mpr ⟨p, hmem, isOk_iff.mpr hbind⟩
  rcases Option.isSome_iff_exists.mp hfound with ⟨q, hq⟩
  have hloop := bindLoop_exec strerror answers addresses
    ((w.acquire .socket).acquire .servinfo)
  rw [newTcpListener, Resource.exec_bind_ok (opened_ok strerror hsocket _ _ w)]
  simp only [hreuse, hresolve]
  rw [Resource.exec_bind_ok (Resource.exec_liftExcept (checkRc_zero strerror _) _),
    Resource.exec_bind_ok (Resource.exec_acquire _ _), Resource.exec_bind_ok hloop, hq,
    Resource.exec_bind_ok (Resource.exec_release _ _),
    Resource.exec_bind_ok (Resource.exec_liftExcept (checkPtr_some strerror q errno _) _),
    Resource.exec_bind_ok (called_ok strerror hlisten _ _)]

/-- The constructor throws, and nobody has the socket. -/
theorem newTcpListener_lost (hsocket : answers (.socket .listener) = .ok number)
    (h : ¬Listens answers resolve) :
    ∃ text w', (newTcpListener strerror gaiStrerror answers resolve errno).exec w =
        (.error text, w') ∧ (w.acquire .socket).Same w' := by
  rw [newTcpListener, Resource.exec_bind_ok (opened_ok strerror hsocket _ _ w)]
  cases hreuse : answers .setReuseAddr with
  | error e => exact ⟨_, _, Resource.exec_bind_error (Resource.exec_liftExcept rfl _), .refl _⟩
  | ok n =>
    simp only
    rw [Resource.exec_bind_ok (Resource.exec_liftExcept (checkRc_zero strerror _) _)]
    cases hresolve : resolve with
    | error rc => exact ⟨_, _, Resource.exec_liftExcept rfl _, .refl _⟩
    | ok addresses =>
      have hloop := bindLoop_exec strerror answers addresses
        ((w.acquire .socket).acquire .servinfo)
      have hsame := (w.acquire .socket).release_acquire .servinfo
      simp only
      rw [Resource.exec_bind_ok (Resource.exec_acquire _ _), Resource.exec_bind_ok hloop,
        Resource.exec_bind_ok (Resource.exec_release _ _)]
      cases hfound : addresses.find? (bindable answers) with
      | none =>
        exact ⟨_, _, Resource.exec_bind_error (Resource.exec_liftExcept rfl _), hsame⟩
      | some p =>
        rw [Resource.exec_bind_ok (Resource.exec_liftExcept (checkPtr_some strerror p errno _) _)]
        have hlisten : ¬Succeeds answers .listen := by
          intro hlisten
          have hbind : bindable answers p = true := List.find?_some hfound
          exact h ⟨⟨n, hreuse⟩, ⟨addresses, hresolve, p, List.mem_of_find?_eq_some hfound,
            isOk_iff.mp hbind⟩, hlisten⟩
        rcases called_error strerror hlisten "failed to listen"
          (((w.acquire .socket).acquire .servinfo).release
            ((w.acquire .socket).fresh .servinfo)) with ⟨text, hcalled⟩
        exact ⟨text, _, Resource.exec_bind_error hcalled, hsame⟩

theorem newTcpListener_owning_iff :
    Owning (fun c => [c.fd.handle]) Channel.destroy
        (newTcpListener strerror gaiStrerror answers resolve errno) w ↔
      Entry.tcpListener.Closed answers resolve := by
  by_cases hsocket : Succeeds answers (.socket .listener)
  · rcases hsocket with ⟨number, hsocket⟩
    have hiff : Entry.tcpListener.Closed answers resolve ↔ Listens answers resolve :=
      ⟨fun h => h ⟨number, hsocket⟩, fun h _ => h⟩
    rw [hiff]
    by_cases h : Listens answers resolve
    · rcases newTcpListener_listens strerror gaiStrerror errno w
        hsocket h with ⟨w', hexec, hsame⟩
      exact iff_of_true (holding_owning (keeps_setNonblocking strerror _) hsame.live hsame.misused
        (w.fresh_not_mem .socket) hexec) h
    · rcases newTcpListener_lost strerror gaiStrerror errno w
        hsocket h with ⟨text, w', hexec, hsame⟩
      rw [Resource.owning_error_iff hexec]
      exact iff_of_false (Resource.not_same_append hsame.live) h
  · rcases opened_error strerror hsocket .socket "failed to create socket" w with
      ⟨text, hopened⟩
    rw [newTcpListener, Resource.owning_error_iff (Resource.exec_bind_error hopened)]
    exact iff_of_true (.refl w) fun h => absurd h hsocket

end

/-! ## A connection that is made -/

/-- `connect` succeeds, or goes on in the background. -/
def begins : Except Errno Nat → Bool
  | .ok _ => true
  | .error errno => errno == einprogress

/-- What `rc_` is then. -/
def rcOf : Except Errno Nat → Int
  | .ok _ => 0
  | .error _ => -1

/-- The loop stops at the address. -/
def usable (answers : SysCall ι → Except Errno Nat) (p : ι) : Bool :=
  (answers (.socket (.candidate p))).isOk &&
    ((answers (.getFlags (.candidate p))).isOk && (answers (.setFlags (.candidate p))).isOk) &&
      begins (answers (.connect p))

theorem usable_iff {p : ι} :
    usable answers p = true ↔ Succeeds answers (.socket (.candidate p)) ∧
      Nonblocks answers (.candidate p) ∧ begins (answers (.connect p)) = true := by
  simp only [usable, Bool.and_eq_true, isOk_iff, Nonblocks, and_assoc]

/-- What the loop returns when it stops at an address. -/
def attempt (answers : SysCall ι → Except Errno Nat) (p : ι) (fd : Fd) : ConnectAwaitable ι :=
  ⟨rcOf (answers (.connect p)), .candidate p, fd⟩

variable (answers) in
/-- The scope of the loop that catches what `set_nonblocking` throws. -/
theorem tryNonblocking_exec (c : Channel ι) (w : World Kind) (ok : Bool)
    (hok : ok = true ↔ Nonblocks answers c.sock) :
    (tryCatch
      (do
        setNonblocking strerror answers c
        return true)
      fun _ => return false : Code Bool).exec w = (.ok ok, w) := by
  rw [Resource.exec_tryCatch]
  cases ok with
  | true =>
    rw [Resource.exec_bind_ok (setNonblocking_ok strerror (hok.mp rfl) w)]
    rfl
  | false =>
    have hfails : ¬Nonblocks answers c.sock := fun h => Bool.false_ne_true (hok.mpr h)
    rcases setNonblocking_error strerror hfails w with ⟨text, herror⟩
    rw [Resource.exec_bind_error herror]
    rfl

/-- An iteration on an address that does not do closes the socket. -/
theorem connectLoop_skip {p : ι} (h : ¬usable answers p = true) (rest : List ι)
    (w : World Kind) :
    ∃ w', (connectLoop strerror answers (p :: rest)).exec w =
        (connectLoop strerror answers rest).exec w' ∧ w.Same w' := by
  rw [connectLoop]
  cases hsocket : answers (.socket (.candidate p)) with
  | error errno => exact ⟨w, rfl, .refl w⟩
  | ok number =>
    refine ⟨_, ?_, w.release_acquire .socket⟩
    simp only
    rw [Resource.exec_bind_ok (Resource.exec_acquire _ _)]
    by_cases hnonblocks : Nonblocks answers (.candidate p)
    · have htry := tryNonblocking_exec strerror answers
        ⟨.candidate p, number, w.fresh .socket⟩ (w.acquire .socket) true
        (iff_of_true rfl hnonblocks)
      rw [Resource.exec_bind_ok htry, if_pos rfl]
      cases hconnect : answers (.connect p) with
      | ok n =>
        have hbegins : begins (answers (.connect p)) = true := by rw [hconnect]; rfl
        exact absurd (usable_iff.mpr ⟨⟨number, hsocket⟩, hnonblocks, hbegins⟩) h
      | error errno =>
        have hother : errno ≠ einprogress := by
          intro heq
          have hbegins : begins (answers (.connect p)) = true := by
            rw [hconnect]
            exact beq_iff_eq.mpr heq
          exact h (usable_iff.mpr ⟨⟨number, hsocket⟩, hnonblocks, hbegins⟩)
        simp only [if_neg hother]
        exact Resource.exec_bind_ok (Resource.exec_release _ _)
    · have htry := tryNonblocking_exec strerror answers
        ⟨.candidate p, number, w.fresh .socket⟩ (w.acquire .socket) false
        (iff_of_false Bool.false_ne_true hnonblocks)
      rw [Resource.exec_bind_ok htry, if_neg Bool.false_ne_true]
      exact Resource.exec_bind_ok (Resource.exec_release _ _)

/-- At an address that does the loop stops. -/
theorem connectLoop_stop {p : ι} (h : usable answers p = true) (rest : List ι)
    (w : World Kind) :
    ∃ number, answers (.socket (.candidate p)) = .ok number ∧
      (connectLoop strerror answers (p :: rest)).exec w =
        (.ok (some (attempt answers p ⟨number, w.fresh .socket⟩)), w.acquire .socket) := by
  rcases usable_iff.mp h with ⟨⟨number, hsocket⟩, hnonblocks, hbegins⟩
  refine ⟨number, hsocket, ?_⟩
  have htry := tryNonblocking_exec strerror answers
    ⟨.candidate p, number, w.fresh .socket⟩ (w.acquire .socket) true
    (iff_of_true rfl hnonblocks)
  rw [connectLoop]
  simp only [hsocket]
  rw [Resource.exec_bind_ok (Resource.exec_acquire _ _), Resource.exec_bind_ok htry, if_pos rfl,
    attempt]
  cases hconnect : answers (.connect p) with
  | ok n => rfl
  | error errno =>
    have heq : errno = einprogress := by
      rw [hconnect] at hbegins
      exact beq_iff_eq.mp hbegins
    simp only [if_pos heq]
    rfl

variable (answers) in
/-- The loop keeps the socket of the first address that does, and no other. -/
theorem connectLoop_exec (addresses : List ι) (w : World Kind) :
    match addresses.find? (usable answers) with
    | none =>
      ∃ w', (connectLoop strerror answers addresses).exec w = (.ok none, w') ∧ w.Same w'
    | some p =>
      ∃ fd w', answers (.socket (.candidate p)) = .ok fd.number ∧
        (connectLoop strerror answers addresses).exec w =
          (.ok (some (attempt answers p fd)), w') ∧
        fd.handle ∉ w.live ∧ w'.live = w.live ++ [fd.handle] ∧ w'.misused = w.misused := by
  induction addresses generalizing w with
  | nil => exact ⟨w, rfl, .refl w⟩
  | cons p rest ih =>
    by_cases hp : usable answers p = true
    · rw [List.find?_cons_of_pos hp]
      rcases connectLoop_stop strerror hp rest w with ⟨number, hsocket, hexec⟩
      exact ⟨⟨number, w.fresh .socket⟩, _, hsocket, hexec, w.fresh_not_mem .socket, rfl, rfl⟩
    · -- nothing is left of the iteration, and the loop goes on
      rcases connectLoop_skip strerror hp rest w with ⟨w₁, hskip, hsame⟩
      rw [List.find?_cons_of_neg hp, hskip]
      have hrest := ih w₁
      cases hfound : rest.find? (usable answers) with
      | none =>
        rw [hfound] at hrest
        rcases hrest with ⟨w', hexec, hsame'⟩
        exact ⟨w', hexec, hsame'.live.trans hsame.live, hsame'.misused.trans hsame.misused⟩
      | some q =>
        rw [hfound] at hrest
        rcases hrest with ⟨fd, w', hsocket, hexec, hnot, hlive, hmisused⟩
        rw [hsame.live] at hnot hlive
        exact ⟨fd, w', hsocket, hexec, hnot, hlive, hmisused.trans hsame.misused⟩

/-- The list of addresses is freed on both ways out of the constructor. -/
theorem newConnectAwaitable_none {addresses : List ι} (hresolve : resolve = .ok addresses)
    (hfound : addresses.find? (usable answers) = none) (w : World Kind) :
    ∃ w', (newConnectAwaitable strerror gaiStrerror answers resolve).exec w =
        (.error "failed to connect", w') ∧ w.Same w' := by
  have hloop := connectLoop_exec strerror answers addresses
    (w.acquire .servinfo)
  rw [hfound] at hloop
  rcases hloop with ⟨w', hexec, hsame⟩
  refine ⟨_, ?_, World.same_release hsame.live hsame.misused (w.fresh_not_mem .servinfo)⟩
  subst hresolve
  rw [newConnectAwaitable, Resource.exec_bind_ok (Resource.exec_acquire _ _),
    Resource.exec_bind_ok hexec, Resource.exec_bind_ok (Resource.exec_release _ _)]
  rfl

theorem newConnectAwaitable_some {addresses : List ι} {p : ι} (hresolve : resolve = .ok addresses)
    (hfound : addresses.find? (usable answers) = some p) (w : World Kind) :
    ∃ fd w', answers (.socket (.candidate p)) = .ok fd.number ∧
      (newConnectAwaitable strerror gaiStrerror answers resolve).exec w =
        (.ok (attempt answers p fd), w') ∧
      fd.handle ∉ w.live ∧ w'.live = w.live ++ [fd.handle] ∧ w'.misused = w.misused := by
  have hloop := connectLoop_exec strerror answers addresses
    (w.acquire .servinfo)
  rw [hfound] at hloop
  rcases hloop with ⟨fd, w', hsocket, hexec, hnot, hlive, hmisused⟩
  have hfreed : (w'.release (w.fresh .servinfo)).live = w.live ++ [fd.handle] ∧
      (w'.release (w.fresh .servinfo)).misused = w'.misused := by
    apply World.release_live _ (w.fresh_not_mem .servinfo)
    rw [hlive]
    exact List.append_assoc ..
  refine ⟨fd, _, hsocket, ?_, fun hmem => hnot (List.mem_append_left _ hmem), hfreed.1,
    hfreed.2.trans hmisused⟩
  subst hresolve
  rw [newConnectAwaitable, Resource.exec_bind_ok (Resource.exec_acquire _ _),
    Resource.exec_bind_ok hexec, Resource.exec_bind_ok (Resource.exec_release _ _)]
  rfl

/-- The connection is made: at once, or `epoll` tells of it. -/
def Connected (answers : SysCall ι → Except Errno Nat) (p : ι) : Prop :=
  (Succeeds answers (.connect p) ∨ Succeeds answers (.epollAdd (.candidate p))) ∧
    answers (.getSoError (.candidate p)) = .ok 0

variable (answers) in
/-- When the coroutine goes on, `SO_ERROR` decides. -/
theorem soError_cases (c : Channel ι) (w : World Kind) :
    let code : Code (Channel ι) := do
      match answers (.getSoError c.sock) with
      | .error errno =>
        liftExcept (checkErrno strerror (.error errno) "failed to get socket error")
      | .ok err => liftExcept (checkRc strerror err "failed to connect")
      return c
    (answers (.getSoError c.sock) = .ok 0 ∧ code.exec w = (.ok c, w)) ∨
      (answers (.getSoError c.sock) ≠ .ok 0 ∧ ∃ text, code.exec w = (.error text, w)) := by
  cases hso : answers (.getSoError c.sock) with
  | error errno =>
    refine .inr ⟨?_, _, Resource.exec_bind_error (Resource.exec_liftExcept rfl _)⟩
    intro h
    cases h
  | ok err =>
    by_cases hzero : err = 0
    · subst hzero
      exact .inl ⟨rfl, Resource.exec_bind_ok (Resource.exec_liftExcept (checkRc_zero strerror _) _)⟩
    · rcases checkRc_error strerror (Int.natCast_ne_zero.mpr hzero) "failed to connect" with
        ⟨text, hcheck⟩
      refine .inr ⟨?_, text, Resource.exec_bind_error (Resource.exec_liftExcept hcheck _)⟩
      intro h
      exact hzero (Except.ok.inj h)

variable (answers) in
/-- The coroutine waits for the socket unless `connect` has succeeded, and returns its
channel exactly if the connection is made. -/
theorem await_cases (p : ι) (fd : Fd) (w : World Kind) :
    (Connected answers p ∧
      ((attempt answers p fd).await strerror answers).exec w = (.ok ⟨.candidate p, fd⟩, w)) ∨
    (¬Connected answers p ∧
      ∃ text, ((attempt answers p fd).await strerror answers).exec w = (.error text, w)) := by
  have hso := soError_cases strerror answers ⟨.candidate p, fd⟩ w
  rw [ConnectAwaitable.await]
  cases hconnect : answers (.connect p) with
  | ok n =>
    have hready : Succeeds answers (.connect p) ∨
        Succeeds answers (.epollAdd (.candidate p)) := .inl ⟨n, hconnect⟩
    have hrc : ¬(attempt answers p fd).rc ≠ 0 := by
      rw [attempt, hconnect]
      exact fun hne => hne rfl
    rw [if_neg hrc]
    rcases hso with ⟨hzero, hexec⟩ | ⟨hother, text, hexec⟩
    · exact .inl ⟨⟨hready, hzero⟩, hexec⟩
    · exact .inr ⟨fun hmade => hother hmade.2, text, hexec⟩
  | error errno =>
    have hrc : (attempt answers p fd).rc ≠ 0 := by
      rw [attempt, hconnect]
      intro hzero
      cases hzero
    rw [if_pos hrc]
    by_cases hadd : Succeeds answers (.epollAdd (.candidate p))
    · have hcalled := called_ok strerror hadd "failed to add fd to epoll" w
      rcases hso with ⟨hzero, hexec⟩ | ⟨hother, text, hexec⟩
      · exact .inl ⟨⟨.inr hadd, hzero⟩, (Resource.exec_bind_ok hcalled).trans hexec⟩
      · exact .inr ⟨fun hmade => hother hmade.2, text, (Resource.exec_bind_ok hcalled).trans hexec⟩
    · rcases called_error strerror hadd "failed to add fd to epoll" w with
        ⟨text, hcalled⟩
      refine .inr ⟨?_, text, Resource.exec_bind_error hcalled⟩
      rintro ⟨⟨n, hok⟩ | hok, -⟩
      · cases hconnect.symm.trans hok
      · exact hadd hok

theorem keeps_await (p : ι) (fd : Fd) :
    Keeps ⟨.candidate p, fd⟩ ((attempt answers p fd).await strerror answers) := by
  intro w
  rcases await_cases strerror answers p fd w with h | h
  · exact .inl h.2
  · exact .inr h.2

variable (answers) in
theorem newConnectAwaitable_error {rc : Int} (hresolve : resolve = .error rc) (w : World Kind) :
    ∃ text, (newConnectAwaitable strerror gaiStrerror answers resolve).exec w =
      (.error text, w) := by
  subst hresolve
  rw [newConnectAwaitable]
  exact ⟨_, Resource.exec_liftExcept rfl w⟩

theorem connect_owning (w : World Kind) :
    Owning (fun c => [c.fd.handle]) Channel.destroy
      (connect strerror gaiStrerror answers resolve) w := by
  rw [connect]
  cases hresolve : resolve with
  | error rc =>
    have hrefused : (Except.error rc : Except Int (List ι)) = .error rc := rfl
    rcases newConnectAwaitable_error strerror gaiStrerror answers hrefused w with ⟨text, hexec⟩
    exact (Resource.owning_error_iff (Resource.exec_bind_error hexec)).mpr (.refl w)
  | ok addresses =>
    cases hfound : addresses.find? (usable answers) with
    | none =>
      rcases newConnectAwaitable_none strerror gaiStrerror rfl
        hfound w with ⟨w', hexec, hsame⟩
      exact (Resource.owning_error_iff (Resource.exec_bind_error hexec)).mpr hsame
    | some p =>
      rcases newConnectAwaitable_some strerror gaiStrerror rfl
        hfound w with ⟨fd, w', -, hexec, hnot, hlive, hmisused⟩
      exact holding_owning (keeps_await strerror p fd) hlive hmisused hnot
        (Resource.exec_bind_ok hexec)

/-! ## A connection that is accepted -/

theorem doIo_ok {again : Bool} {number : Nat} (h : answers (.accept again) = .ok number)
    (w : World Kind) :
    (doIo strerror answers again).exec w =
      (.ok (some ⟨.accepted, number, w.fresh .socket⟩), w.acquire .socket) := by
  rw [doIo, h]
  rfl

theorem doIo_error {again : Bool} (h : ¬Succeeds answers (.accept again)) (w : World Kind) :
    (doIo strerror answers again).exec w = (.ok none, w) ∨
      ∃ text, (doIo strerror answers again).exec w = (.error text, w) := by
  rw [doIo]
  cases haccept : answers (.accept again) with
  | ok number => exact absurd ⟨number, haccept⟩ h
  | error errno =>
    by_cases heagain : errno = eagain
    · simp only [if_pos heagain]
      exact .inl rfl
    · simp only [if_neg heagain]
      exact .inr ⟨_, Resource.exec_bind_error (Resource.exec_liftExcept rfl w)⟩

theorem awaitResume_some (client : Channel ι) :
    awaitResume strerror answers (some client) =
      holding client do
        setNonblocking strerror answers client
        return client := rfl

/-- `await_resume` of a client that has been accepted. -/
theorem accepted_owning {code : Code (Channel ι)} {number : Nat} {w : World Kind}
    (hexec : code.exec w =
      (awaitResume strerror answers (some ⟨.accepted, number, w.fresh .socket⟩)).exec
        (w.acquire .socket)) :
    Owning (fun c => [c.fd.handle]) Channel.destroy code w := by
  rw [awaitResume_some strerror] at hexec
  have hlive : (w.acquire .socket).live = w.live ++ [w.fresh .socket] := rfl
  have hmisused : (w.acquire .socket).misused = w.misused := rfl
  exact holding_owning (keeps_setNonblocking strerror _) hlive hmisused
    (w.fresh_not_mem .socket) hexec

/-- `await_resume` that accepts itself. -/
theorem awaitResume_none_owning (w : World Kind) :
    Owning (fun c => [c.fd.handle]) Channel.destroy (awaitResume strerror answers none) w := by
  by_cases haccept : Succeeds answers (.accept true)
  · rcases haccept with ⟨number, haccept⟩
    exact accepted_owning strerror (Resource.exec_bind_ok (doIo_ok strerror haccept w))
  · rcases doIo_error strerror haccept w with hnone | ⟨text, herror⟩
    · have hexec : (awaitResume strerror answers none).exec w = (.error _, w) :=
        (Resource.exec_bind_ok hnone).trans (Resource.exec_liftExcept (e := throwWith _) rfl w)
      exact (Resource.owning_error_iff hexec).mpr (.refl w)
    · exact (Resource.owning_error_iff (Resource.exec_bind_error herror)).mpr (.refl w)

/-- A client with descriptor 0 counts as none, so the coroutine waits for the next one;
if it cannot, that client is lost. -/
theorem accept_owning_iff (w : World Kind) :
    Owning (fun c => [c.fd.handle]) Channel.destroy (accept strerror answers) w ↔
      Entry.accept.Closed answers resolve := by
  by_cases haccept : Succeeds answers (.accept false)
  · rcases haccept with ⟨number, haccept⟩
    have hexec : (accept strerror answers).exec w = _ :=
      Resource.exec_bind_ok (doIo_ok strerror haccept w)
    by_cases hready : 0 < number
    · have hnow : awaitReady (some (⟨.accepted, number, w.fresh .socket⟩ : Channel ι)) = true :=
        decide_eq_true hready
      rw [if_pos hnow] at hexec
      refine iff_of_true (accepted_owning strerror hexec) ?_
      intro hzero
      cases haccept.symm.trans hzero
      exact absurd hready (Nat.lt_irrefl 0)
    · have hzero : number = 0 := by omega
      subst hzero
      have hiff : Entry.accept.Closed answers resolve ↔ Succeeds answers (.epollAdd .listener) :=
        ⟨fun h => h haccept, fun h _ => h⟩
      have hlater : ¬awaitReady (some (⟨.accepted, 0, w.fresh .socket⟩ : Channel ι)) = true :=
        Bool.false_ne_true
      rw [if_neg hlater] at hexec
      rw [hiff]
      by_cases hadd : Succeeds answers (.epollAdd .listener)
      · rw [Resource.exec_bind_ok (called_ok strerror hadd _ _)] at hexec
        exact iff_of_true (accepted_owning strerror hexec) hadd
      · rcases called_error strerror hadd "failed to add fd to epoll"
          (w.acquire .socket) with ⟨text, hcalled⟩
        rw [Resource.exec_bind_error hcalled] at hexec
        rw [Resource.owning_error_iff hexec]
        exact iff_of_false (Resource.not_same_acquire w .socket) hadd
  · refine iff_of_true ?_ fun hzero => absurd ⟨0, hzero⟩ haccept
    rcases doIo_error strerror haccept w with hnone | ⟨text, herror⟩
    · have hexec : (accept strerror answers).exec w = _ := Resource.exec_bind_ok hnone
      have hlater : ¬awaitReady (none : Option (Channel ι)) = true := Bool.false_ne_true
      rw [if_neg hlater] at hexec
      by_cases hadd : Succeeds answers (.epollAdd .listener)
      · rw [Resource.exec_bind_ok (called_ok strerror hadd _ _)] at hexec
        exact (Resource.owning_congr hexec).mpr (awaitResume_none_owning strerror w)
      · rcases called_error strerror hadd "failed to add fd to epoll" w with
          ⟨text, hcalled⟩
        rw [Resource.exec_bind_error hcalled] at hexec
        exact (Resource.owning_error_iff hexec).mpr (.refl w)
    · exact (Resource.owning_error_iff (Resource.exec_bind_error herror)).mpr (.refl w)

end

/-! ## The entries -/

/-- An entry leaves nothing open that nobody owns, whichever calls fail, exactly if no
call fails between the first descriptor and the object that is to own it, and no
descriptor of an event loop is 0. -/
theorem loses_nothing_iff {ι : Type} (strerror gaiStrerror : Int → String)
    (answers : SysCall ι → Except Errno Nat) (resolve : Except Int (List ι)) (errno : Errno)
    (w : World Kind) (entry : Entry) :
    entry.LosesNothing strerror gaiStrerror answers resolve errno w ↔
      entry.Closed answers resolve := by
  cases entry with
  | eventLoop => exact newEventLoop_owning_iff strerror w
  | tcpListener => exact newTcpListener_owning_iff strerror gaiStrerror errno w
  | connect => exact iff_of_true (connect_owning strerror gaiStrerror w) trivial
  | accept => exact accept_owning_iff strerror w

/-- A connection is made to the first address whose socket can be opened and begins to
connect. No later address is tried if that one fails afterwards. -/
theorem connects_to_iff {ι : Type} (strerror gaiStrerror : Int → String)
    (answers : SysCall ι → Except Errno Nat) (resolve : Except Int (List ι)) (w : World Kind)
    (p : ι) :
    (∃ fd w', (connect strerror gaiStrerror answers resolve).exec w =
        (.ok ⟨.candidate p, fd⟩, w')) ↔
      ∃ before after, resolve = .ok (before ++ p :: after) ∧
        (∀ q ∈ before, usable answers q = false) ∧ usable answers p = true ∧
          Connected answers p := by
  constructor
  · rintro ⟨fd, w', hexec⟩
    cases hresolve : resolve with
    | error rc =>
      rcases newConnectAwaitable_error strerror gaiStrerror answers hresolve w with ⟨text, herror⟩
      cases hexec.symm.trans (Resource.exec_bind_error herror)
    | ok addresses =>
      cases hfound : addresses.find? (usable answers) with
      | none =>
        rcases newConnectAwaitable_none strerror gaiStrerror
          hresolve hfound w with ⟨w₁, herror, -⟩
        cases hexec.symm.trans (Resource.exec_bind_error herror)
      | some q =>
        rcases newConnectAwaitable_some strerror gaiStrerror
          hresolve hfound w with ⟨fd₁, w₁, -, hmade, -⟩
        have hheld := hexec.symm.trans (Resource.exec_bind_ok hmade)
        rcases await_cases strerror answers q fd₁ w₁ with
          ⟨hconnected, hawait⟩ | ⟨-, text, hawait⟩
        · cases hheld.trans (holding_ok hawait)
          rcases List.find?_eq_some_iff_append.mp hfound with
            ⟨husable, before, after, happend, hbefore⟩
          refine ⟨before, after, happend ▸ rfl, ?_, husable, hconnected⟩
          intro r hr
          exact Bool.not_eq_true' _ |>.mp (hbefore r hr)
        · cases hheld.trans (holding_error hawait)
  · rintro ⟨before, after, hresolve, hbefore, husable, hconnected⟩
    have hfound : (before ++ p :: after).find? (usable answers) = some p := by
      apply List.find?_eq_some_iff_append.mpr
      refine ⟨husable, before, after, rfl, ?_⟩
      intro q hq
      rw [hbefore q hq]
      rfl
    rcases newConnectAwaitable_some strerror gaiStrerror hresolve
      hfound w with ⟨fd, w₁, -, hmade, -⟩
    rcases await_cases strerror answers p fd w₁ with
      ⟨-, hawait⟩ | ⟨hnot, -⟩
    · exact ⟨fd, w₁, (Resource.exec_bind_ok hmade).trans (holding_ok hawait)⟩
    · exact absurd hconnected hnot

end Ucxpp.Sockets
