import Mathlib.Data.List.Count

/-!
# Exclusive ownership of cells

Owners hold sets of cells, and one flag per cell is the only record of who holds what. The flags
are exact when each cell has as many live holders as its flag says, which is at most one. Taking
free cells and giving back a live owner's cells both toggle exactly the cells concerned, so a
single toggling operation serves for both.
-/

namespace ExclusiveOwnership

set_option autoImplicit false

variable {Owner Cell : Type} (holds : Owner → Cell → Bool)

def holders (live : List Owner) (cell : Cell) : Nat := live.countP fun owner => holds owner cell

def Exclusive (taken : Cell → Bool) (live : List Owner) : Prop :=
  ∀ cell, holders holds live cell = (taken cell).toNat

def toggled (taken : Cell → Bool) (owner : Owner) : Cell → Bool :=
  fun cell => taken cell ^^ holds owner cell

variable {holds} {taken : Cell → Bool} {live : List Owner} {owner : Owner}

theorem exclusive_nil_iff : Exclusive holds taken [] ↔ ∀ cell, taken cell = false := by
  constructor
  · intro exclusive cell
    have counted := exclusive cell
    cases flag : taken cell with
    | false => rfl
    | true => simp [holders, flag] at counted
  · intro vacant cell
    simp [holders, vacant cell]

/-- A cell is taken exactly when one live owner holds it. -/
theorem Exclusive.taken_iff (exclusive : Exclusive holds taken live) (cell : Cell) :
    taken cell = true ↔ holders holds live cell = 1 := by
  rw [exclusive cell]
  cases taken cell <;> simp

theorem Exclusive.taken_of_held (exclusive : Exclusive holds taken live) (member : owner ∈ live)
    {cell : Cell} (held : holds owner cell = true) : taken cell = true := by
  have positive : 0 < holders holds live cell := List.countP_pos_iff.mpr ⟨owner, member, held⟩
  rw [exclusive cell] at positive
  cases flag : taken cell with
  | true => rfl
  | false => simp [flag] at positive

theorem Exclusive.acquire (exclusive : Exclusive holds taken live)
    (vacant : ∀ cell, holds owner cell = true → taken cell = false) :
    Exclusive holds (toggled holds taken owner) (owner :: live) := by
  intro cell
  have counted := exclusive cell
  unfold holders at counted ⊢
  rw [List.countP_cons, counted, toggled]
  cases held : holds owner cell with
  | false => simp
  | true => simp [vacant cell held]

theorem Exclusive.release [DecidableEq Owner] (exclusive : Exclusive holds taken live)
    (member : owner ∈ live) :
    Exclusive holds (toggled holds taken owner) (live.erase owner) := by
  intro cell
  have counted := exclusive cell
  have split : holders holds live cell =
      (if holds owner cell then 1 else 0) + holders holds (live.erase owner) cell := by
    unfold holders
    rw [(List.perm_cons_erase member).countP_eq, List.countP_cons, Nat.add_comm]
  rw [split] at counted
  rw [toggled]
  cases held : holds owner cell with
  | false => simpa [held] using counted
  | true =>
      have flag := exclusive.taken_of_held member held
      rw [held, flag] at counted
      simp only [flag, Bool.xor_self, Bool.toNat_false]
      simpa using counted

theorem Exclusive.pairwise (exclusive : Exclusive holds taken live) :
    live.Pairwise fun first second =>
      ∀ cell, ¬(holds first cell = true ∧ holds second cell = true) := by
  have atMostOne : ∀ cell, holders holds live cell ≤ 1 := by
    intro cell
    rw [exclusive cell]
    exact Bool.toNat_le _
  clear exclusive
  induction live with
  | nil => exact List.Pairwise.nil
  | cons first rest ih =>
      refine List.Pairwise.cons ?_ (ih ?_)
      · intro second member cell shared
        rcases shared with ⟨firstHolds, secondHolds⟩
        have positive : 0 < rest.countP fun owner => holds owner cell :=
          List.countP_pos_iff.mpr ⟨second, member, secondHolds⟩
        have counted := atMostOne cell
        rw [holders, List.countP_cons, if_pos firstHolds] at counted
        omega
      · intro cell
        have counted := atMostOne cell
        rw [holders, List.countP_cons] at counted
        unfold holders
        omega

end ExclusiveOwnership
