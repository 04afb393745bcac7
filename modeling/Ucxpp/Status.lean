import Mathlib.Order.Basic

/-!
# Status — UCX status codes, status pointers and error.h

What the library assumes of UCX types, and its own error checks:

* `UcsStatus`, `StatusPtr` — `ucs_status_t` and the three kinds of
  `ucs_status_ptr_t` that a `*_nbx` call returns;
* `throwWith`, `checkUcsStatus` — `throw_with` and `check_ucs_status`. A C++
  exception is an `Except.error` with the `what()` text.
-/

namespace Ucxpp

/-- The error codes of UCX: `UCS_ERR_NO_MESSAGE = -1` down to
`UCS_ERR_LAST = -100`. The code is `-(e + 1)`. -/
abbrev UcsError := Fin 100

/-- `ucs_status_t`. -/
inductive UcsStatus where
  | ok
  | inProgress
  | err (e : UcsError)
deriving DecidableEq, Repr

/-- The number behind a status, as `%d` prints it. -/
def UcsStatus.toInt : UcsStatus → Int
  | .ok => 0
  | .inProgress => 1
  | .err e => -(e.val + 1)

/-- A request pointer returned by UCX. -/
abbrev Request := Nat

/-- `ucs_status_ptr_t`: NULL for an operation that is done, an error pointer
(`UCS_PTR_IS_ERR`) or a request (`UCS_PTR_IS_PTR`). -/
inductive StatusPtr where
  | null
  | err (e : UcsError)
  | request (r : Request)
deriving DecidableEq, Repr

/-- `UCS_PTR_IS_PTR`. -/
def StatusPtr.isPtr : StatusPtr → Bool
  | .request _ => true
  | .null | .err _ => false

/-- `kErrorStringBufferSize`. -/
def kErrorStringBufferSize : Nat := 1024

/-- `throw_with`: the text goes through `snprintf` into a fixed buffer, which
keeps room for the terminating NUL. -/
def throwWith {α : Type} (text : String) : Except String α :=
  .error (String.ofList (text.toList.take (kErrorStringBufferSize - 1)))

section

-- `ucs_status_string` is a function of UCX; nothing depends on its texts.
variable (statusString : UcsStatus → String)

/-- `check_ucs_status`. -/
def checkUcsStatus (status : UcsStatus) (message : String) : Except String Unit :=
  if status = .ok then
    .ok ()
  else if status = .inProgress then
    .ok ()
  else
    throwWith (message ++ ": " ++ statusString status ++
      " (status=" ++ toString status.toInt ++ ")")

@[simp] theorem checkUcsStatus_ok (message : String) :
    checkUcsStatus statusString .ok message = .ok () := rfl

/-- An error status is always thrown. -/
theorem checkUcsStatus_err (e : UcsError) (message : String) :
    ∃ text, checkUcsStatus statusString (.err e) message = .error text :=
  ⟨_, rfl⟩

/-- Apart from `UCS_INPROGRESS`, the check passes exactly on `UCS_OK`. -/
theorem checkUcsStatus_ok_iff {status : UcsStatus} (hfinal : status ≠ .inProgress)
    (message : String) :
    checkUcsStatus statusString status message = .ok () ↔ status = .ok := by
  cases status with
  | ok => simp
  | inProgress => exact absurd rfl hfinal
  | err e =>
    rcases checkUcsStatus_err statusString e message with ⟨text, h⟩
    rw [h]
    simp

end

end Ucxpp
