import Ucxpp.Lib.Resource
import Ucxpp.Status

/-!
# Acquire — the entries that acquire UCX resources

The constructors of `context`, `config`, `worker`, `endpoint` and
`remote_memory_handle`, `register_mem`, `allocate_mem`, `pack_rkey` and
`get_address`, with the destructors of what they return. `answers` says which
calls into UCX fail; a call that succeeds acquires its handle.

Three ways out of an entry lose a handle (`Entry.Safe`): a constructor that
throws after it has acquired (`worker`), a check between two steps
(`allocate_mem`), and a member that the destructor reads although no constructor
has set it (`close_request_` of `endpoint`).
-/

namespace Ucxpp.Acquire

open Resource (World Owning)

/-- What UCX gives out. -/
inductive Kind where
  | config
  | context
  | worker
  | ep
  | rkey
  | mem
  | rkeyBuffer
  | address
deriving DecidableEq, Repr

abbrev Handle := Resource.Handle Kind

/-- The calls into UCX that can fail. -/
inductive UcxCall where
  | configRead
  | init (config : Handle) (features : Nat) (mtWorkersShared : Bool)
  | workerCreate (context : Handle)
  | workerGetEfd (worker : Handle)
  | workerGetAddress (worker : Handle)
  | epCreate (worker : Handle)
  | epRkeyUnpack (ep : Option Handle)
  | memMap (context : Handle) (allocate : Bool)
  | memQuery (mem : Handle)
  | rkeyPack (context : Handle) (mem : Option Handle)
deriving DecidableEq, Repr

abbrev Code := Resource.Code Kind String

/-! ## Objects -/

structure Config where
  config : Handle

structure Context where
  context : Handle
  features : Nat

/-- `event_fd_` is -1 unless the context has the wakeup feature. -/
structure Worker where
  worker : Handle
  ctx : Context
  eventFd : Int

/-- The storage of `close_request_` is not set by the constructor. -/
structure Endpoint where
  worker : Worker
  ep : Option Handle
  closeRequest : Option Request

structure RemoteMemoryHandle where
  endpoint : Option Endpoint
  ep : Option Handle
  rkey : Option Handle

structure LocalMemoryHandle where
  ctx : Option Context
  mem : Option Handle

structure PackedMemoryRkey where
  buffer : Option Handle

structure LocalAddress where
  worker : Option Worker
  address : Option Handle

/-- `UCP_FEATURE_WAKEUP`. -/
def featureWakeup : Nat := 16

/-! ## Destructors -/

/-- A destructor that releases a member unless it is null. -/
def releaseIfSet : Option Handle → Code Unit
  | some h => Resource.release h
  | none => pure ()

/-- `~config`. -/
def Config.destroy (self : Config) : Code Unit :=
  Resource.release self.config

/-- `~context`. -/
def Context.destroy (self : Context) : Code Unit :=
  Resource.release self.context

/-- `~worker`. -/
def Worker.destroy (self : Worker) : Code Unit :=
  Resource.release self.worker

/-- `~endpoint`. -/
def Endpoint.destroy (self : Endpoint) : Code Unit :=
  if self.closeRequest = none then releaseIfSet self.ep else pure ()

/-- `~remote_memory_handle`. -/
def RemoteMemoryHandle.destroy (self : RemoteMemoryHandle) : Code Unit :=
  releaseIfSet self.rkey

/-- `~local_memory_handle`. -/
def LocalMemoryHandle.destroy (self : LocalMemoryHandle) : Code Unit :=
  releaseIfSet self.mem

/-- `~packed_memory_rkey`. -/
def PackedMemoryRkey.destroy (self : PackedMemoryRkey) : Code Unit :=
  releaseIfSet self.buffer

/-- `~local_address`. -/
def LocalAddress.destroy (self : LocalAddress) : Code Unit :=
  releaseIfSet self.address

/-- The move constructor: the new object, and what is left of `other`. -/
def LocalMemoryHandle.moveConstruct (other : LocalMemoryHandle) :
    LocalMemoryHandle × LocalMemoryHandle :=
  (other, ⟨none, none⟩)

/-! ## Entries -/

section

variable (statusString : UcsStatus → String) (answers : UcxCall → Option UcsError)

/-- `check_ucs_status`. -/
def check (status : UcsStatus) (message : String) : Code Unit :=
  liftExcept (checkUcsStatus statusString status message)

/-- The status of a call. -/
def status (call : UcxCall) : UcsStatus :=
  (answers call).elim .ok .err

/-- A call that gives a handle out through its last argument, in a
`check_ucs_status`. -/
def give (call : UcxCall) (kind : Kind) (message : String) : Code Handle :=
  match answers call with
  | none => do
    let h ← Resource.acquire kind
    check statusString .ok message
    return h
  | some e => do
    check statusString (.err e) message
    -- not reached
    return (← get).fresh kind

/-- `config::config`. -/
def newConfig : Code Config := do
  let config ← give statusString answers .configRead .config "failed to read ucp config"
  return ⟨config⟩

/-- `context::context`. -/
def newContext (features : Nat) (enableMt : Bool) : Code Context :=
  Resource.withLocal (newConfig statusString answers) Config.destroy fun config => do
    let context ← give statusString answers (.init config.config features enableMt) .context
      "failed to init ucp"
    return ⟨context, features⟩

/-- `worker::worker`; `efd` is what `ucp_worker_get_efd` writes. -/
def newWorker (ctx : Context) (efd : Int) : Code Worker := do
  let worker ← give statusString answers (.workerCreate ctx.context) .worker
    "failed to create ucp worker"
  if ctx.features &&& featureWakeup ≠ 0 then
    check statusString (status answers (.workerGetEfd worker)) "failed to get ucp worker event fd"
    return ⟨worker, ctx, efd⟩
  else
    return ⟨worker, ctx, -1⟩

/-- `endpoint::endpoint`, in storage that holds `closeRequest`. -/
def newEndpoint (worker : Worker) (closeRequest : Option Request) : Code Endpoint := do
  let ep ← give statusString answers (.epCreate worker.worker) .ep "failed to create ep"
  return ⟨worker, some ep, closeRequest⟩

/-- `remote_memory_handle::remote_memory_handle`. -/
def newRemoteMemoryHandle (endpoint : Endpoint) : Code RemoteMemoryHandle := do
  let rkey ← give statusString answers (.epRkeyUnpack endpoint.ep) .rkey "failed to unpack memory"
  return ⟨some endpoint, endpoint.ep, some rkey⟩

/-- `local_memory_handle::register_mem`. -/
def registerMem (ctx : Context) : Code LocalMemoryHandle := do
  let mem ← give statusString answers (.memMap ctx.context false) .mem "failed to map memory"
  return ⟨some ctx, some mem⟩

/-- `local_memory_handle::allocate_mem`; `address` is what `ucp_mem_query` writes. -/
def allocateMem (ctx : Context) (address : Nat) : Code (Nat × LocalMemoryHandle) := do
  let mem ← give statusString answers (.memMap ctx.context true) .mem "failed to map memory"
  check statusString (status answers (.memQuery mem)) "failed to get memory address"
  -- make_pair moves the temporary, which is then destroyed
  let (handle, temporary) := LocalMemoryHandle.moveConstruct ⟨some ctx, some mem⟩
  temporary.destroy
  return (address, handle)

/-- `local_memory_handle::pack_rkey` of an object with these members. -/
def packRkey (ctx : Context) (mem : Option Handle) : Code PackedMemoryRkey := do
  let buffer ← give statusString answers (.rkeyPack ctx.context mem) .rkeyBuffer
    "failed to pack memory"
  return ⟨some buffer⟩

/-- `worker::get_address`, of a worker that a shared pointer owns:
`shared_from_this` gives that pointer. -/
def getAddress (self : Worker) : Code LocalAddress := do
  let address ← give statusString answers (.workerGetAddress self.worker) .address
    "failed to get address"
  return ⟨some self, some address⟩

/-! ## What is acquired is owned -/

inductive Entry where
  | config
  | context (features : Nat) (enableMt : Bool)
  | worker (ctx : Context) (efd : Int)
  | endpoint (worker : Worker) (closeRequest : Option Request)
  | remoteMemoryHandle (endpoint : Endpoint)
  | registerMem (ctx : Context)
  | allocateMem (ctx : Context) (address : Nat)
  | packRkey (ctx : Context) (mem : Option Handle)
  | getAddress (worker : Worker)

/-- If the entry throws, everything that it acquired has been released. If it
returns, the object has exactly what was acquired and not released, and its
destructor releases that. -/
def Entry.LeaksNothing (w : World Kind) : Entry → Prop
  | .config =>
    Owning (fun c => [c.config]) Config.destroy (newConfig statusString answers) w
  | .context features enableMt =>
    Owning (fun c => [c.context]) Context.destroy
      (newContext statusString answers features enableMt) w
  | .worker ctx efd =>
    Owning (fun o => [o.worker]) Worker.destroy (newWorker statusString answers ctx efd) w
  | .endpoint self closeRequest =>
    Owning (fun o => o.ep.toList) Endpoint.destroy
      (newEndpoint statusString answers self closeRequest) w
  | .remoteMemoryHandle self =>
    Owning (fun o => o.rkey.toList) RemoteMemoryHandle.destroy
      (newRemoteMemoryHandle statusString answers self) w
  | .registerMem ctx =>
    Owning (fun o => o.mem.toList) LocalMemoryHandle.destroy
      (Acquire.registerMem statusString answers ctx) w
  | .allocateMem ctx address =>
    Owning (fun o => o.2.mem.toList) (fun o => o.2.destroy)
      (Acquire.allocateMem statusString answers ctx address) w
  | .packRkey ctx mem =>
    Owning (fun o => o.buffer.toList) PackedMemoryRkey.destroy
      (Acquire.packRkey statusString answers ctx mem) w
  | .getAddress self =>
    Owning (fun o => o.address.toList) LocalAddress.destroy
      (Acquire.getAddress statusString answers self) w

/-- What UCX must not answer, and what the storage of an endpoint must not hold. -/
def Entry.Safe (w : World Kind) : Entry → Prop
  | .worker ctx _ =>
    answers (.workerCreate ctx.context) = none → ctx.features &&& featureWakeup ≠ 0 →
      answers (.workerGetEfd (w.fresh .worker)) = none
  | .endpoint self closeRequest =>
    answers (.epCreate self.worker) = none → closeRequest = none
  | .allocateMem ctx _ =>
    answers (.memMap ctx.context true) = none → answers (.memQuery (w.fresh .mem)) = none
  | .config | .context .. | .remoteMemoryHandle _ | .registerMem _ | .packRkey .. | .getAddress _ =>
    True

variable {answers}

theorem give_ok {call : UcxCall} (h : answers call = none) (kind : Kind) (message : String)
    (w : World Kind) :
    (give statusString answers call kind message).exec w =
      (.ok (w.fresh kind), w.acquire kind) := by
  rw [give, h]
  rfl

theorem give_error {call : UcxCall} {e : UcsError} (h : answers call = some e) (kind : Kind)
    (message : String) (w : World Kind) :
    ∃ text, (give statusString answers call kind message).exec w = (.error text, w) := by
  rw [give, h]
  exact ⟨_, rfl⟩

theorem check_ok (message : String) (w : World Kind) :
    (check statusString .ok message).exec w = (.ok (), w) := rfl

theorem check_error (e : UcsError) (message : String) (w : World Kind) :
    ∃ text, (check statusString (.err e) message).exec w = (.error text, w) :=
  ⟨_, rfl⟩

theorem owning_give_error {α : Type} {owned : α → List Handle} {destroy : α → Code Unit}
    {call : UcxCall} {e : UcsError} (h : answers call = some e) (kind : Kind) (message : String)
    (k : Handle → Code α) (w : World Kind) :
    Owning owned destroy (give statusString answers call kind message >>= k) w := by
  rcases give_error statusString h kind message w with ⟨text, hgive⟩
  exact (Resource.owning_error_iff (Resource.exec_bind_error hgive)).mpr (.refl w)

/-- What follows a call returns an object that owns the handle. -/
theorem owning_give_ok {α : Type} {owned : α → List Handle} {destroy : α → Code Unit}
    {call : UcxCall} {kind : Kind} {message : String} {k : Handle → Code α} {w : World Kind} {o : α}
    (h : answers call = none)
    (hexec : (k (w.fresh kind)).exec (w.acquire kind) = (.ok o, w.acquire kind))
    (howned : owned o = [w.fresh kind])
    (hdestroy : ((destroy o).exec (w.acquire kind)).2 = (w.acquire kind).release (w.fresh kind)) :
    Owning owned destroy (give statusString answers call kind message >>= k) w := by
  have hall := Resource.exec_bind_ok (k := k) (give_ok statusString h kind message w)
  exact Resource.owning_acquire (hall.trans hexec) howned hdestroy

/-- What follows a call throws and leaves the handle alone: nobody owns it. -/
theorem not_owning_give {α : Type} {owned : α → List Handle} {destroy : α → Code Unit}
    {call : UcxCall} {kind : Kind} {message : String} {k : Handle → Code α} {w : World Kind}
    (h : answers call = none)
    (hexec : ∃ text, (k (w.fresh kind)).exec (w.acquire kind) = (.error text, w.acquire kind)) :
    ¬Owning owned destroy (give statusString answers call kind message >>= k) w := by
  rcases hexec with ⟨text, hexec⟩
  have hall := Resource.exec_bind_ok (k := k) (give_ok statusString h kind message w)
  rw [Resource.owning_error_iff (hall.trans hexec)]
  exact Resource.not_same_acquire w kind

/-- One call, whose handle the object owns. -/
theorem owning_give {α : Type} {owned : α → List Handle} {destroy : α → Code Unit} {call : UcxCall}
    {kind : Kind} {message : String} {f : Handle → α} {w : World Kind}
    (howned : owned (f (w.fresh kind)) = [w.fresh kind])
    (hdestroy : ((destroy (f (w.fresh kind))).exec (w.acquire kind)).2 =
      (w.acquire kind).release (w.fresh kind)) :
    Owning owned destroy
      (give statusString answers call kind message >>= fun h => pure (f h)) w := by
  cases hcall : answers call with
  | none => exact owning_give_ok statusString hcall rfl howned hdestroy
  | some e => exact owning_give_error statusString hcall kind message _ w

/-- The local `config` is destroyed on both ways out. -/
theorem newContext_owning (features : Nat) (enableMt : Bool) (w : World Kind) :
    Owning (fun c => [c.context]) Context.destroy
      (newContext statusString answers features enableMt) w := by
  cases hread : answers .configRead with
  | some e =>
    rcases give_error statusString hread .config
      "failed to read ucp config" w with ⟨text, hgive⟩
    have hconfig : (newConfig statusString answers).exec w = (.error text, w) :=
      Resource.exec_bind_error hgive
    exact (Resource.owning_error_iff (Resource.withLocal_construct_error hconfig)).mpr (.refl w)
  | none =>
    have hconfig : (newConfig statusString answers).exec w =
        (.ok ⟨w.fresh .config⟩, w.acquire .config) :=
      Resource.exec_bind_ok (give_ok statusString hread .config _ w)
    cases hinit : answers (.init (w.fresh .config) features enableMt) with
    | some e =>
      rcases give_error statusString hinit .context "failed to init ucp"
        (w.acquire .config) with ⟨text, hgive⟩
      have hexec : (newContext statusString answers features enableMt).exec w =
          (.error text, (w.acquire .config).release (w.fresh .config)) :=
        Resource.withLocal_error hconfig (Resource.exec_bind_error hgive) rfl
      exact (Resource.owning_error_iff hexec).mpr (w.release_acquire .config)
    | none =>
      have hbody := Resource.exec_bind_ok (k := fun h => pure (Context.mk h features))
        (give_ok statusString hinit .context "failed to init ucp"
          (w.acquire .config))
      have hexec : (newContext statusString answers features enableMt).exec w =
          (.ok ⟨(w.acquire .config).fresh .context, features⟩,
            ((w.acquire .config).acquire .context).release (w.fresh .config)) :=
        Resource.withLocal_ok hconfig hbody rfl
      rw [Resource.owning_ok_iff hexec]
      -- the configuration goes, the context stays with its owner
      rcases w.release_acquire_acquire .config .context with ⟨hlive, hmisused⟩
      refine ⟨hlive, hmisused, World.same_release hlive hmisused fun hmem => ?_⟩
      exact (w.acquire .config).fresh_not_mem .context (List.mem_append_left _ hmem)

/-- The constructor throws between two steps, and its destructor does not run. -/
theorem newWorker_owning_iff (ctx : Context) (efd : Int) (w : World Kind) :
    Owning (fun o => [o.worker]) Worker.destroy (newWorker statusString answers ctx efd) w ↔
      (answers (.workerCreate ctx.context) = none → ctx.features &&& featureWakeup ≠ 0 →
        answers (.workerGetEfd (w.fresh .worker)) = none) := by
  cases hcreate : answers (.workerCreate ctx.context) with
  | some e =>
    exact iff_of_true (owning_give_error statusString hcreate .worker _ _ w) nofun
  | none =>
    by_cases hwakeup : ctx.features &&& featureWakeup ≠ 0
    · cases hefd : answers (.workerGetEfd (w.fresh .worker)) with
      | some e =>
        rcases check_error statusString e "failed to get ucp worker event fd"
          (w.acquire .worker) with ⟨text, hcheck⟩
        refine iff_of_false (not_owning_give statusString hcreate ⟨text, ?_⟩)
          fun h => nomatch h rfl hwakeup
        rw [if_pos hwakeup, status, hefd]
        exact Resource.exec_bind_error hcheck
      | none =>
        refine iff_of_true (owning_give_ok statusString hcreate
          (o := ⟨w.fresh .worker, ctx, efd⟩) ?_ rfl rfl) fun _ _ => rfl
        rw [if_pos hwakeup, status, hefd]
        exact Resource.exec_bind_ok (check_ok statusString _ _)
    · refine iff_of_true (owning_give_ok statusString hcreate
        (o := ⟨w.fresh .worker, ctx, -1⟩) ?_ rfl rfl) fun _ h => absurd h hwakeup
      rw [if_neg hwakeup]
      rfl

/-- The destructor closes only where it finds `close_request_` null. -/
theorem newEndpoint_owning_iff (worker : Worker) (closeRequest : Option Request)
    (w : World Kind) :
    Owning (fun o => o.ep.toList) Endpoint.destroy
        (newEndpoint statusString answers worker closeRequest) w ↔
      (answers (.epCreate worker.worker) = none → closeRequest = none) := by
  cases hcreate : answers (.epCreate worker.worker) with
  | some e =>
    exact iff_of_true (owning_give_error statusString hcreate .ep _ _ w) nofun
  | none =>
    have hexec : (newEndpoint statusString answers worker closeRequest).exec w =
        (.ok ⟨worker, some (w.fresh .ep), closeRequest⟩, w.acquire .ep) :=
      Resource.exec_bind_ok (give_ok statusString hcreate .ep _ w)
    cases closeRequest with
    | none => exact iff_of_true (Resource.owning_acquire hexec rfl rfl) fun _ => rfl
    | some request =>
      rw [Resource.owning_ok_iff hexec]
      exact iff_of_false (fun h => Resource.not_same_acquire w .ep h.2.2) fun h => nomatch h rfl

/-- Between `ucp_mem_map` and the handle, nothing owns the mapping. -/
theorem allocateMem_owning_iff (ctx : Context) (address : Nat) (w : World Kind) :
    Owning (fun o => o.2.mem.toList) (fun o => o.2.destroy)
        (Acquire.allocateMem statusString answers ctx address) w ↔
      (answers (.memMap ctx.context true) = none →
        answers (.memQuery (w.fresh .mem)) = none) := by
  cases hmap : answers (.memMap ctx.context true) with
  | some e =>
    exact iff_of_true (owning_give_error statusString hmap .mem _ _ w) nofun
  | none =>
    cases hquery : answers (.memQuery (w.fresh .mem)) with
    | some e =>
      rcases check_error statusString e "failed to get memory address" (w.acquire .mem) with
        ⟨text, hcheck⟩
      refine iff_of_false (not_owning_give statusString hmap ⟨text, ?_⟩) fun h => nomatch h rfl
      rw [status, hquery]
      exact Resource.exec_bind_error hcheck
    | none =>
      refine iff_of_true (owning_give_ok statusString hmap
        (o := (address, ⟨some ctx, some (w.fresh .mem)⟩)) ?_ rfl rfl) fun _ => rfl
      rw [status, hquery]
      exact Resource.exec_bind_ok (check_ok statusString _ _)

/-- An entry leaks nothing, whichever calls fail, exactly if it avoids the three
ways out that lose a handle. -/
theorem leaks_nothing_iff (statusString : UcsStatus → String) (answers : UcxCall → Option UcsError)
    (w : World Kind) (entry : Entry) :
    entry.LeaksNothing statusString answers w ↔ entry.Safe answers w := by
  cases entry with
  | config => exact iff_of_true (owning_give statusString rfl rfl) trivial
  | context features enableMt =>
    exact iff_of_true (newContext_owning statusString features enableMt w) trivial
  | worker ctx efd => exact newWorker_owning_iff statusString ctx efd w
  | endpoint self closeRequest => exact newEndpoint_owning_iff statusString self closeRequest w
  | remoteMemoryHandle self => exact iff_of_true (owning_give statusString rfl rfl) trivial
  | registerMem ctx => exact iff_of_true (owning_give statusString rfl rfl) trivial
  | allocateMem ctx address => exact allocateMem_owning_iff statusString ctx address w
  | packRkey ctx mem => exact iff_of_true (owning_give statusString rfl rfl) trivial
  | getAddress self => exact iff_of_true (owning_give statusString rfl rfl) trivial

/-- `ucp_mem_query` fails after `ucp_mem_map` has succeeded. -/
def queryFails : UcxCall → Option UcsError
  | .memQuery _ => some 0
  | _ => none

/-- The mapping is neither owned nor released. -/
theorem allocateMem_leaks :
    ((allocateMem (fun _ => "") queryFails ⟨⟨.context, 0⟩, 0⟩ 0).exec .init).2.live =
        [⟨.mem, 0⟩] ∧
      ¬(Entry.allocateMem ⟨⟨.context, 0⟩, 0⟩ 0).LeaksNothing (fun _ => "") queryFails .init := by
  refine ⟨rfl, fun h => ?_⟩
  have hlive : [⟨.mem, 0⟩] = ([] : List Handle) := h.live
  cases hlive

end

end Ucxpp.Acquire
