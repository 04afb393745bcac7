import Ucxpp.HelloworldRun

/-!
# HelloworldPrints — whose bell a handler hears

A handler prints the word when it has heard a bell. With one client that is the bell of
the round, and the client waits for the answer. With two of them a handler can hear the
bell that the other client rings in its first round: it prints the word that its own client
has not changed yet (`run_stolen`), or returns before its client has operated on the word
for the last time (`run_fault`).
-/

namespace Ucxpp.Helloworld

variable {rounds : List Round} {k : Nat}

theorem shows_congr {v w : Vars} (h : v.value = w.value) (round : Round) :
    round.shows v = round.shows w := by
  cases round with
  | put => rfl
  | atomic => rw [Round.shows, Round.shows, h]

/-- Whenever a handler prints, the word is what the round makes of it. -/
def Shown (rounds : List Round) (x : Session) : Prop :=
  ∀ r, x.handler = .print r → x.vars.value = (after rounds (r + 1)).value

theorem Session.Right.clientStep {x x' : Session} {rung : Nat} (h : x.Right rounds)
    (hstep : x.ClientStep rounds x' rung) : x'.Right rounds := by
  cases hstep <;> exact h

theorem Session.Right.handlerStep {x x' : Session} {bells heard : Nat} (h : x.Right rounds)
    (hshown : Shown rounds x) (hstep : x.HandlerStep rounds bells x' heard) :
    x'.Right rounds := by
  rw [Session.Right] at h
  cases hstep with
  | listen hpc | close hpc | answer hpc =>
    rw [hpc] at h
    exact h
  | @print r round hpc hr =>
    rw [hpc] at h
    rw [Session.Right, HandlerPc.shown, prints_take_succ hr, h, shows_congr (hshown r hpc) round]
    rfl

/-- The first atomic of `client` changes the word. -/
example : ¬∀ m ≤ helloworld.length, (after helloworld m).value = Vars.init.value := by decide

end Ucxpp.Helloworld
