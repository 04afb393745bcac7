import Ucxpp.Lib.Lts
import Ucxpp.Lib.RefCount

/-!
# Ownership — the wrapper objects, their shared pointers and their destructors

Contexts, workers and endpoints are owned by shared pointers: the user's, and
`worker::ctx_`, `endpoint::worker_`, `local_address::worker_`,
`local_memory_handle::ctx_` and `remote_memory_handle::endpoint_`. An object
and the UCX handle that it wraps have the same number; addresses, memory
handles, packed keys and remote keys are numbered in the order in which UCX
gives them out.

What the user holds is a list of variables. `step` is one statement of the
user: a creation, a copy, a move, an assignment or the end of a variable, with
all that the destructors do. Every call into UCX that gives a handle back is
logged, together with the heap at that time.
-/

namespace Ucxpp.Ownership

open RefCount (Cell uses setUses setObj held heldBy)

/-- What a shared pointer points to. -/
inductive Ref where
  | context (c : Nat)
  | worker (w : Nat)
  | endpoint (e : Nat)
deriving DecidableEq, Repr

/-- A context holds no shared pointer. -/
structure Context where
deriving DecidableEq, Repr

structure Worker where
  ctx : Option Nat
deriving DecidableEq, Repr

def Worker.ref (worker : Worker) : Option Ref :=
  worker.ctx.map .context

/-- `ep` and `closeRequest` say whether `ep_` and `close_request_` are set. -/
structure Endpoint where
  worker : Option Nat
  ep : Bool
  closeRequest : Bool
deriving DecidableEq, Repr

def Endpoint.ref (endpoint : Endpoint) : Option Ref :=
  endpoint.worker.map .worker

/-- A variable of the user: a shared pointer, or an object that is no copy of
another; `none` is the null pointer. -/
inductive Var where
  | contextPtr (p : Option Nat)
  | workerPtr (p : Option Nat)
  | endpointPtr (p : Option Nat)
  | localAddress (worker address : Option Nat)
  | localMemoryHandle (ctx mem : Option Nat)
  | packedMemoryRkey (buffer : Option Nat)
  | remoteMemoryHandle (endpoint ep rkey : Option Nat)
  | dropped
deriving DecidableEq, Repr

/-- The pointer that a variable holds. -/
def Var.ref : Var → Option Ref
  | .contextPtr p => p.map .context
  | .workerPtr p => p.map .worker
  | .endpointPtr p => p.map .endpoint
  | .localAddress worker _ => worker.map .worker
  | .localMemoryHandle ctx _ => ctx.map .context
  | .packedMemoryRkey _ => none
  | .remoteMemoryHandle endpoint _ _ => endpoint.map .endpoint
  | .dropped => none

/-- What UCX made each of its handles from: the context of a worker, the worker
of an endpoint or an address, the context of a memory handle, the memory handle
of a packed key, the endpoint of a remote key. -/
structure Ucx where
  workers : List Nat
  eps : List Nat
  addresses : List Nat
  mems : List Nat
  buffers : List Nat
  rkeys : List Nat
deriving DecidableEq, Repr

structure Heap where
  contexts : List (Cell Context)
  workers : List (Cell Worker)
  endpoints : List (Cell Endpoint)
  vars : List Var
  ucx : Ucx
deriving DecidableEq, Repr

/-- The calls that give a handle back. The address and the memory handle go
with the worker and the context behind the pointer of the object. -/
inductive Call where
  | cleanup (c : Nat)
  | workerDestroy (w : Nat)
  | epCloseNbx (e : Nat)
  | workerReleaseAddress (worker : Option Nat) (address : Nat)
  | memUnmap (ctx : Option Nat) (mem : Nat)
  | rkeyBufferRelease (buffer : Nat)
  | rkeyDestroy (rkey : Nat)
deriving DecidableEq, Repr

structure Entry where
  call : Call
  heap : Heap
deriving DecidableEq, Repr

structure St where
  heap : Heap
  log : List Entry
deriving DecidableEq, Repr

def St.init : St where
  heap := ⟨[], [], [], [], ⟨[], [], [], [], [], []⟩⟩
  log := []

/-! ## The heap -/

/-- `use_count`. -/
def Heap.uses (h : Heap) : Ref → Nat
  | .context c => RefCount.uses h.contexts c
  | .worker w => RefCount.uses h.workers w
  | .endpoint e => RefCount.uses h.endpoints e

def Heap.setUses (h : Heap) (r : Ref) (n : Nat) : Heap :=
  match r with
  | .context c => { h with contexts := RefCount.setUses h.contexts c n }
  | .worker w => { h with workers := RefCount.setUses h.workers w n }
  | .endpoint e => { h with endpoints := RefCount.setUses h.endpoints e n }

/-- The shared pointers to an object, in variables and in objects. -/
def Heap.holders (h : Heap) (r : Ref) : Nat :=
  held Var.ref h.vars r + heldBy Worker.ref h.workers r + heldBy Endpoint.ref h.endpoints r

def St.call (s : St) (c : Call) : St :=
  { s with log := s.log ++ [⟨c, s.heap⟩] }

def St.setUses (s : St) (r : Ref) (n : Nat) : St :=
  { s with heap := s.heap.setUses r n }

def St.setVar (s : St) (i : Nat) (v : Var) : St :=
  { s with heap := { s.heap with vars := s.heap.vars.set i v } }

def St.setWorker (s : St) (w : Nat) (worker : Worker) : St :=
  { s with heap := { s.heap with workers := setObj s.heap.workers w worker } }

def St.setEndpoint (s : St) (e : Nat) (endpoint : Endpoint) : St :=
  { s with heap := { s.heap with endpoints := setObj s.heap.endpoints e endpoint } }

/-- A shared pointer is copied. -/
def St.retain (s : St) : Option Ref → St
  | none => s
  | some r => s.setUses r (s.heap.uses r + 1)

/-- A shared pointer is destroyed; the object is not, yet. -/
def St.unuse (s : St) (r : Ref) : St :=
  s.setUses r (s.heap.uses r - 1)

/-! ## The destructors -/

/-- `~context`. -/
def destroyContext (s : St) (c : Nat) : St :=
  s.call (.cleanup c)

def releaseContext (s : St) (c : Nat) : St :=
  let s := s.unuse (.context c)
  if s.heap.uses (.context c) = 0 then destroyContext s c else s

/-- `~worker`, and then its member `ctx_`. -/
def destroyWorker (s : St) (w : Nat) : St :=
  match s.heap.workers[w]? with
  | some cell =>
    let s := s.call (.workerDestroy w)
    -- members go after the body of the destructor
    cell.obj.ctx.elim s (releaseContext (s.setWorker w { ctx := none }))
  | none => s

def releaseWorker (s : St) (w : Nat) : St :=
  let s := s.unuse (.worker w)
  if s.heap.uses (.worker w) = 0 then destroyWorker s w else s

/-- `~endpoint`, and then its member `worker_`. -/
def destroyEndpoint (s : St) (e : Nat) : St :=
  match s.heap.endpoints[e]? with
  | some cell =>
    let s :=
      if cell.obj.ep = true ∧ cell.obj.closeRequest = false then s.call (.epCloseNbx e) else s
    cell.obj.worker.elim s (releaseWorker (s.setEndpoint e { cell.obj with worker := none }))
  | none => s

def releaseEndpoint (s : St) (e : Nat) : St :=
  let s := s.unuse (.endpoint e)
  if s.heap.uses (.endpoint e) = 0 then destroyEndpoint s e else s

/-- A shared pointer that has been taken from its holder goes. -/
def release (s : St) : Option Ref → St
  | none => s
  | some (.context c) => releaseContext s c
  | some (.worker w) => releaseWorker s w
  | some (.endpoint e) => releaseEndpoint s e

/-- The body of the destructor of a variable: `~local_address`,
`~local_memory_handle`, `~packed_memory_rkey`, `~remote_memory_handle`. -/
def destructorBody (s : St) : Var → St
  | .localAddress worker address =>
    address.elim s fun address => s.call (.workerReleaseAddress worker address)
  | .localMemoryHandle ctx mem => mem.elim s fun mem => s.call (.memUnmap ctx mem)
  | .packedMemoryRkey buffer => buffer.elim s fun buffer => s.call (.rkeyBufferRelease buffer)
  | .remoteMemoryHandle _ _ rkey => rkey.elim s fun rkey => s.call (.rkeyDestroy rkey)
  | .contextPtr _ | .workerPtr _ | .endpointPtr _ | .dropped => s

/-- The end of variable `i`, which holds `v`. -/
def drop (s : St) (i : Nat) (v : Var) : St :=
  release ((destructorBody s v).setVar i .dropped) v.ref

/-! ## The statements of the user -/

/-- What a variable is when it has been moved from. -/
def Var.movedFrom : Var → Var
  | .contextPtr _ => .contextPtr none
  | .workerPtr _ => .workerPtr none
  | .endpointPtr _ => .endpointPtr none
  | .localAddress _ _ => .localAddress none none
  | .localMemoryHandle _ _ => .localMemoryHandle none none
  | .packedMemoryRkey _ => .packedMemoryRkey none
  | .remoteMemoryHandle _ _ _ => .remoteMemoryHandle none none none
  | .dropped => .dropped

/-- Two shared pointers of the same type. -/
def Var.samePtr : Var → Var → Bool
  | .contextPtr _, .contextPtr _ => true
  | .workerPtr _, .workerPtr _ => true
  | .endpointPtr _, .endpointPtr _ => true
  | _, _ => false

def Var.withWorker (worker : Option Nat) : Var → Var
  | .localAddress _ address => .localAddress worker address
  | v => v

def Var.withAddress (address : Option Nat) : Var → Var
  | .localAddress worker _ => .localAddress worker address
  | v => v

def St.addVar (s : St) (v : Var) : St :=
  { s with heap := { s.heap with vars := s.heap.vars ++ [v] } }

def St.modifyVar (s : St) (i : Nat) (f : Var → Var) : St :=
  { s with heap := { s.heap with vars := s.heap.vars.modify i f } }

/-- UCX gives out handles. -/
def St.setUcx (s : St) (ucx : Ucx) : St :=
  { s with heap := { s.heap with ucx := ucx } }

/-- `make_shared`; the pointer that it returns is the one use. -/
def makeShared {α : Type} (obj : α) : Cell α :=
  ⟨obj, 1⟩

/-- `context::builder::build`. -/
def build (s : St) : St :=
  let c := s.heap.contexts.length
  let s := { s with heap := { s.heap with contexts := s.heap.contexts ++ [makeShared Context.mk] } }
  s.addVar (.contextPtr (some c))

def St.addWorker (s : St) (c : Nat) : St :=
  { s with heap := { s.heap with
      workers := s.heap.workers ++ [makeShared { ctx := some c }]
      ucx := { s.heap.ucx with workers := s.heap.ucx.workers ++ [c] } } }

/-- `make_shared<worker>` with a pointer to context `c`. -/
def createWorker (s : St) (c : Nat) : St :=
  let w := s.heap.workers.length
  ((s.retain (some (.context c))).addWorker c).addVar (.workerPtr (some w))

def St.addEndpoint (s : St) (w : Nat) (closeRequest : Bool) : St :=
  { s with heap := { s.heap with
      endpoints := s.heap.endpoints ++
        [makeShared { worker := some w, ep := true, closeRequest := closeRequest }]
      ucx := { s.heap.ucx with eps := s.heap.ucx.eps ++ [w] } } }

/-- `make_shared<endpoint>` with a pointer to worker `w`. The constructor sets
`ep_` but not `close_request_`. -/
def createEndpoint (s : St) (w : Nat) (closeRequest : Bool) : St :=
  let e := s.heap.endpoints.length
  ((s.retain (some (.worker w))).addEndpoint w closeRequest).addVar (.endpointPtr (some e))

/-- `worker::get_address`. -/
def getAddress (s : St) (w : Nat) : St :=
  let ucx := s.heap.ucx
  let s := s.setUcx { ucx with addresses := ucx.addresses ++ [w] }
  (s.retain (some (.worker w))).addVar (.localAddress (some w) (some ucx.addresses.length))

/-- `local_memory_handle::register_mem` and `allocate_mem`. -/
def mapMem (s : St) (c : Nat) : St :=
  let ucx := s.heap.ucx
  let s := s.setUcx { ucx with mems := ucx.mems ++ [c] }
  (s.retain (some (.context c))).addVar (.localMemoryHandle (some c) (some ucx.mems.length))

/-- `local_memory_handle::pack_rkey`. -/
def packRkey (s : St) (mem : Nat) : St :=
  let ucx := s.heap.ucx
  let s := s.setUcx { ucx with buffers := ucx.buffers ++ [mem] }
  s.addVar (.packedMemoryRkey (some ucx.buffers.length))

/-- `remote_memory_handle::remote_memory_handle` with a pointer to endpoint `e`. -/
def unpackRkey (s : St) (e : Nat) : St :=
  let ucx := s.heap.ucx
  let s := s.setUcx { ucx with rkeys := ucx.rkeys ++ [e] }
  (s.retain (some (.endpoint e))).addVar
    (.remoteMemoryHandle (some e) (some e) (some ucx.rkeys.length))

/-- `v` is copied into a new variable. -/
def copy (s : St) (v : Var) : St :=
  (s.retain v.ref).addVar v

/-- The move constructors. -/
def moveConstruct (s : St) (src : Nat) (v : Var) : St :=
  (s.setVar src v.movedFrom).addVar v

/-- Copy assignment of shared pointers. -/
def copyAssign (s : St) (dst : Nat) (old v : Var) : St :=
  release ((s.retain v.ref).setVar dst v) old.ref

/-- Move assignment of shared pointers; the old pointer of `dst` goes last. -/
def moveAssignPtr (s : St) (dst src : Nat) (v : Var) : St :=
  -- the source is empty before the old pointer of the target goes
  let s := s.setVar src v.movedFrom
  release (s.setVar dst v) ((s.heap.vars[dst]?).bind Var.ref)

/-- `local_address::operator=`, of a variable `src` with these fields. -/
def moveAssignAddress (s : St) (dst src : Nat) (worker address : Option Nat) : St :=
  -- worker_ = std::move(other.worker_)
  let s := s.modifyVar src (Var.withWorker none)
  let old := (s.heap.vars[dst]?).bind Var.ref
  let s := release (s.modifyVar dst (Var.withWorker worker)) old
  -- address_ = std::exchange(other.address_, nullptr)
  let s := s.modifyVar src (Var.withAddress none)
  s.modifyVar dst (Var.withAddress address)

/-- A statement; the numbers are those of variables. -/
inductive Act where
  | build
  | createWorker (ctx : Nat)
  | createEndpoint (worker : Nat) (closeRequest : Bool)
  | getAddress (worker : Nat)
  | mapMem (ctx : Nat)
  | packRkey (mem : Nat)
  | unpackRkey (endpoint : Nat)
  | contextPtr (worker : Nat)
  | workerPtr (endpoint : Nat)
  | endpointPtr (handle : Nat)
  | copy (src : Nat)
  | move (src : Nat)
  | copyAssign (dst src : Nat)
  | moveAssign (dst src : Nat)
  | drop (i : Nat)
deriving DecidableEq, Repr

/-- One statement, if it compiles and does not follow a null pointer. -/
def step (s : St) : Act → Option St
  | .build => some (build s)
  | .createWorker ctx =>
    match s.heap.vars[ctx]? with
    | some (.contextPtr (some c)) => some (createWorker s c)
    | _ => none
  | .createEndpoint worker closeRequest =>
    match s.heap.vars[worker]? with
    | some (.workerPtr (some w)) => some (createEndpoint s w closeRequest)
    | _ => none
  | .getAddress worker =>
    match s.heap.vars[worker]? with
    | some (.workerPtr (some w)) => some (getAddress s w)
    | _ => none
  | .mapMem ctx =>
    match s.heap.vars[ctx]? with
    | some (.contextPtr (some c)) => some (mapMem s c)
    | _ => none
  | .packRkey mem =>
    match s.heap.vars[mem]? with
    | some (.localMemoryHandle (some _) (some m)) => some (packRkey s m)
    | _ => none
  | .unpackRkey endpoint =>
    match s.heap.vars[endpoint]? with
    | some (.endpointPtr (some e)) => some (unpackRkey s e)
    | _ => none
  | .contextPtr worker =>
    match s.heap.vars[worker]? with
    | some (.workerPtr (some w)) =>
      (s.heap.workers[w]?).map fun cell => copy s (.contextPtr cell.obj.ctx)
    | _ => none
  | .workerPtr endpoint =>
    match s.heap.vars[endpoint]? with
    | some (.endpointPtr (some e)) =>
      (s.heap.endpoints[e]?).map fun cell => copy s (.workerPtr cell.obj.worker)
    | _ => none
  | .endpointPtr handle =>
    match s.heap.vars[handle]? with
    | some (.remoteMemoryHandle endpoint _ _) => some (copy s (.endpointPtr endpoint))
    | _ => none
  | .copy src =>
    match s.heap.vars[src]? with
    | some v => if v.samePtr v = true then some (copy s v) else none
    | none => none
  | .move src =>
    match s.heap.vars[src]? with
    | some v => if v = .dropped then none else some (moveConstruct s src v)
    | none => none
  | .copyAssign dst src =>
    match s.heap.vars[dst]?, s.heap.vars[src]? with
    | some old, some v => if old.samePtr v = true then some (copyAssign s dst old v) else none
    | _, _ => none
  | .moveAssign dst src =>
    match s.heap.vars[dst]?, s.heap.vars[src]? with
    | some (.localAddress _ _), some (.localAddress worker address) =>
      some (moveAssignAddress s dst src worker address)
    | some old, some v => if old.samePtr v = true then some (moveAssignPtr s dst src v) else none
    | _, _ => none
  | .drop i =>
    match s.heap.vars[i]? with
    | some v => if v = .dropped then none else some (drop s i v)
    | none => none

/-! ## What a step can do -/

inductive Step (s : St) : Act → St → Prop where
  | build : Step s .build (Ownership.build s)
  | createWorker {ctx c : Nat} (h : s.heap.vars[ctx]? = some (.contextPtr (some c))) :
    Step s (.createWorker ctx) (Ownership.createWorker s c)
  | createEndpoint {worker w : Nat} {closeRequest : Bool}
      (h : s.heap.vars[worker]? = some (.workerPtr (some w))) :
    Step s (.createEndpoint worker closeRequest) (Ownership.createEndpoint s w closeRequest)
  | getAddress {worker w : Nat} (h : s.heap.vars[worker]? = some (.workerPtr (some w))) :
    Step s (.getAddress worker) (Ownership.getAddress s w)
  | mapMem {ctx c : Nat} (h : s.heap.vars[ctx]? = some (.contextPtr (some c))) :
    Step s (.mapMem ctx) (Ownership.mapMem s c)
  | packRkey {mem m : Nat} {ctx : Option Nat}
      (h : s.heap.vars[mem]? = some (.localMemoryHandle ctx (some m))) :
    Step s (.packRkey mem) (Ownership.packRkey s m)
  | unpackRkey {endpoint e : Nat} (h : s.heap.vars[endpoint]? = some (.endpointPtr (some e))) :
    Step s (.unpackRkey endpoint) (Ownership.unpackRkey s e)
  | contextPtr {worker w : Nat} {cell : Cell Worker}
      (hcell : s.heap.workers[w]? = some cell) :
    Step s (.contextPtr worker) (Ownership.copy s (.contextPtr cell.obj.ctx))
  | workerPtr {endpoint e : Nat} {cell : Cell Endpoint}
      (hcell : s.heap.endpoints[e]? = some cell) :
    Step s (.workerPtr endpoint) (Ownership.copy s (.workerPtr cell.obj.worker))
  | endpointPtr {handle : Nat} {endpoint ep rkey : Option Nat}
      (h : s.heap.vars[handle]? = some (.remoteMemoryHandle endpoint ep rkey)) :
    Step s (.endpointPtr handle) (Ownership.copy s (.endpointPtr endpoint))
  | copy {src : Nat} {v : Var} (h : s.heap.vars[src]? = some v) (hptr : v.samePtr v = true) :
    Step s (.copy src) (Ownership.copy s v)
  | move {src : Nat} {v : Var} (h : s.heap.vars[src]? = some v) :
    Step s (.move src) (moveConstruct s src v)
  | copyAssign {dst src : Nat} {old v : Var} (hdst : s.heap.vars[dst]? = some old)
      (hsrc : s.heap.vars[src]? = some v) (hptr : old.samePtr v = true) :
    Step s (.copyAssign dst src) (Ownership.copyAssign s dst old v)
  | moveAssignAddress {dst src : Nat} {worker address worker' address' : Option Nat}
      (hdst : s.heap.vars[dst]? = some (.localAddress worker' address'))
      (hsrc : s.heap.vars[src]? = some (.localAddress worker address)) :
    Step s (.moveAssign dst src) (Ownership.moveAssignAddress s dst src worker address)
  | moveAssignPtr {dst src : Nat} {old v : Var} (hdst : s.heap.vars[dst]? = some old)
      (hsrc : s.heap.vars[src]? = some v) (hptr : old.samePtr v = true) :
    Step s (.moveAssign dst src) (Ownership.moveAssignPtr s dst src v)
  | drop {i : Nat} {v : Var} (h : s.heap.vars[i]? = some v) :
    Step s (.drop i) (Ownership.drop s i v)

theorem step_cases {s s' : St} {a : Act} (h : step s a = some s') : Step s a s' := by
  unfold step at h
  split at h
  · exact Option.some.inj h ▸ .build
  · split at h
    · exact Option.some.inj h ▸ .createWorker ‹_›
    · exact nomatch h
  · split at h
    · exact Option.some.inj h ▸ .createEndpoint ‹_›
    · exact nomatch h
  · split at h
    · exact Option.some.inj h ▸ .getAddress ‹_›
    · exact nomatch h
  · split at h
    · exact Option.some.inj h ▸ .mapMem ‹_›
    · exact nomatch h
  · split at h
    · exact Option.some.inj h ▸ .packRkey ‹_›
    · exact nomatch h
  · split at h
    · exact Option.some.inj h ▸ .unpackRkey ‹_›
    · exact nomatch h
  · split at h
    · rcases Option.map_eq_some_iff.mp h with ⟨cell, hcell, rfl⟩
      exact .contextPtr hcell
    · exact nomatch h
  · split at h
    · rcases Option.map_eq_some_iff.mp h with ⟨cell, hcell, rfl⟩
      exact .workerPtr hcell
    · exact nomatch h
  · split at h
    · exact Option.some.inj h ▸ .endpointPtr ‹_›
    · exact nomatch h
  · split at h
    · split at h
      · exact Option.some.inj h ▸ .copy ‹_› ‹_›
      · exact nomatch h
    · exact nomatch h
  · split at h
    · split at h
      · exact nomatch h
      · exact Option.some.inj h ▸ .move ‹_›
    · exact nomatch h
  · split at h
    · split at h
      · exact Option.some.inj h ▸ .copyAssign ‹_› ‹_› ‹_›
      · exact nomatch h
    · exact nomatch h
  · split at h
    · exact Option.some.inj h ▸ .moveAssignAddress ‹_› ‹_›
    · split at h
      · exact Option.some.inj h ▸ .moveAssignPtr ‹_› ‹_› ‹_›
      · exact nomatch h
    · exact nomatch h
  · split at h
    · split at h
      · exact nomatch h
      · exact Option.some.inj h ▸ .drop ‹_›
    · exact nomatch h

end Ucxpp.Ownership
