import Mathlib.Algebra.Ring.Nat
import Mathlib.Data.List.Basic

/-!
# Machine words with checked arithmetic, and loops that may abort

Rust arithmetic on unsigned integers aborts on overflow in a debug build and wraps in a release
build. A computation that can abort returns an `Option`, and `none` is the abort. Counted loops
run over the words of a half-open range in increasing order; the lemmas below reduce a whole loop
to what one trip does.
-/

namespace RustWord

set_option autoImplicit false

abbrev Usize := BitVec 32

inductive Profile where
  | debug
  | release
  deriving DecidableEq

section Arithmetic

variable {width : Nat} (prof : Profile) (x y : BitVec width)

def Profile.add : Option (BitVec width) :=
  if prof = .debug ∧ 2 ^ width ≤ x.toNat + y.toNat then none else some (x + y)

def Profile.sub : Option (BitVec width) :=
  if prof = .debug ∧ x.toNat < y.toNat then none else some (x - y)

def Profile.mul : Option (BitVec width) :=
  if prof = .debug ∧ 2 ^ width ≤ x.toNat * y.toNat then none else some (x * y)

theorem add_exact (fits : x.toNat + y.toNat < 2 ^ width) : prof.add x y = some (x + y) :=
  if_neg fun overflow => absurd overflow.2 (Nat.not_le.mpr fits)

theorem sub_exact (ordered : y.toNat ≤ x.toNat) : prof.sub x y = some (x - y) :=
  if_neg fun underflow => absurd underflow.2 (Nat.not_lt.mpr ordered)

theorem mul_exact (fits : x.toNat * y.toNat < 2 ^ width) : prof.mul x y = some (x * y) :=
  if_neg fun overflow => absurd overflow.2 (Nat.not_le.mpr fits)

variable {prof x y} {z : BitVec width}

theorem eq_add_of_some (result : prof.add x y = some z) : z = x + y := by
  unfold Profile.add at result
  split_ifs at result
  exact (Option.some.inj result).symm

theorem eq_mul_of_some (result : prof.mul x y = some z) : z = x * y := by
  unfold Profile.mul at result
  split_ifs at result
  exact (Option.some.inj result).symm

theorem add_of_nat (prof : Profile) {a b : Nat} (fits : a + b < 2 ^ width) :
    prof.add (BitVec.ofNat width a) (BitVec.ofNat width b) = some (BitVec.ofNat width (a + b)) := by
  rw [add_exact, BitVec.ofNat_add]
  rw [BitVec.toNat_ofNat, BitVec.toNat_ofNat, Nat.mod_eq_of_lt (by omega),
    Nat.mod_eq_of_lt (by omega)]
  exact fits

theorem sub_of_nat (prof : Profile) {a b : Nat} (ordered : b ≤ a) (word : a < 2 ^ width) :
    prof.sub (BitVec.ofNat width a) (BitVec.ofNat width b) = some (BitVec.ofNat width (a - b)) := by
  have left : (BitVec.ofNat width a).toNat = a := Nat.mod_eq_of_lt word
  have right : (BitVec.ofNat width b).toNat = b := Nat.mod_eq_of_lt (by omega)
  rw [sub_exact _ _ _ (by rw [left, right]; exact ordered)]
  congr 1
  apply BitVec.eq_of_toNat_eq
  rw [BitVec.toNat_sub_of_le (by rw [BitVec.le_def, left, right]; exact ordered), left, right,
    BitVec.toNat_ofNat, Nat.mod_eq_of_lt (by omega)]

theorem mul_of_nat (prof : Profile) {a b : Nat} (left : a < 2 ^ width) (right : b < 2 ^ width)
    (fits : a * b < 2 ^ width) :
    prof.mul (BitVec.ofNat width a) (BitVec.ofNat width b) = some (BitVec.ofNat width (a * b)) := by
  rw [mul_exact, BitVec.ofNat_mul]
  rw [BitVec.toNat_ofNat, BitVec.toNat_ofNat, Nat.mod_eq_of_lt left, Nat.mod_eq_of_lt right]
  exact fits

theorem div_of_nat {a b : Nat} (left : a < 2 ^ width) (right : b < 2 ^ width) :
    BitVec.ofNat width a / BitVec.ofNat width b = BitVec.ofNat width (a / b) := by
  apply BitVec.eq_of_toNat_eq
  rw [BitVec.toNat_udiv, BitVec.toNat_ofNat, BitVec.toNat_ofNat, BitVec.toNat_ofNat,
    Nat.mod_eq_of_lt left, Nat.mod_eq_of_lt right,
    Nat.mod_eq_of_lt (Nat.lt_of_le_of_lt (Nat.div_le_self a b) left)]

def Profile.addNat (width : Nat) (prof : Profile) (a b : Nat) : Option Nat :=
  (prof.add (BitVec.ofNat width a) (BitVec.ofNat width b)).map BitVec.toNat

def Profile.subNat (width : Nat) (prof : Profile) (a b : Nat) : Option Nat :=
  (prof.sub (BitVec.ofNat width a) (BitVec.ofNat width b)).map BitVec.toNat

theorem add_nat_exact (prof : Profile) {a b : Nat} (fits : a + b < 2 ^ width) :
    prof.addNat width a b = some (a + b) := by
  rw [Profile.addNat, add_of_nat prof fits, Option.map_some, BitVec.toNat_ofNat,
    Nat.mod_eq_of_lt fits]

theorem sub_nat_exact (prof : Profile) {a b : Nat} (ordered : b ≤ a) (word : a < 2 ^ width) :
    prof.subNat width a b = some (a - b) := by
  rw [Profile.subNat, sub_of_nat prof ordered word, Option.map_some, BitVec.toNat_ofNat,
    Nat.mod_eq_of_lt (by omega)]

end Arithmetic

section Shifts

variable {width : Nat} (prof : Profile) (word : BitVec width) (amount : Nat)

/-- An amount from the width on aborts in a debug build and is masked in a release build, which for
the widths of Rust is the remainder. -/
def Profile.shl : Option (BitVec width) :=
  if prof = .debug ∧ width ≤ amount then none else some (word <<< (amount % width))

def Profile.shr : Option (BitVec width) :=
  if prof = .debug ∧ width ≤ amount then none else some (word >>> (amount % width))

variable {amount}

theorem shl_exact (inside : amount < width) : prof.shl word amount = some (word <<< amount) := by
  rw [Profile.shl, if_neg (fun overflow => absurd overflow.2 (Nat.not_le.mpr inside)),
    Nat.mod_eq_of_lt inside]

theorem shr_exact (inside : amount < width) : prof.shr word amount = some (word >>> amount) := by
  rw [Profile.shr, if_neg (fun overflow => absurd overflow.2 (Nat.not_le.mpr inside)),
    Nat.mod_eq_of_lt inside]

end Shifts

def wordRange {width : Nat} (start stop : BitVec width) : List (BitVec width) :=
  (List.range' start.toNat (stop.toNat - start.toNat)).map (BitVec.ofNat width)

theorem mem_word_range {width : Nat} {start stop word : BitVec width} :
    word ∈ wordRange start stop ↔ start.toNat ≤ word.toNat ∧ word.toNat < stop.toNat := by
  have bounded := stop.isLt
  simp only [wordRange, List.mem_map, List.mem_range'_1]
  constructor
  · intro listed
    rcases listed with ⟨value, ⟨lower, upper⟩, rfl⟩
    rw [BitVec.toNat_ofNat, Nat.mod_eq_of_lt (by omega)]
    omega
  · intro bounds
    rcases bounds with ⟨lower, upper⟩
    refine ⟨word.toNat, by omega, ?_⟩
    rw [BitVec.ofNat_toNat, BitVec.setWidth_eq]

theorem word_range_increasing {width : Nat} (start stop : BitVec width) :
    (wordRange start stop).Pairwise fun first second => first.toNat < second.toNat := by
  have bounded := stop.isLt
  rw [wordRange, List.pairwise_map]
  refine List.Pairwise.imp_of_mem ?_ List.pairwise_lt_range'
  intro first second firstListed secondListed ordered
  rw [List.mem_range'_1] at firstListed secondListed
  rwa [BitVec.toNat_ofNat, BitVec.toNat_ofNat, Nat.mod_eq_of_lt (by omega),
    Nat.mod_eq_of_lt (by omega)]

theorem mem_before_word_range {width : Nat} {start stop item word : BitVec width}
    {before after : List (BitVec width)} (split : wordRange start stop = before ++ item :: after) :
    word ∈ before ↔ start.toNat ≤ word.toNat ∧ word.toNat < item.toNat := by
  have increasing := word_range_increasing start stop
  rw [split, List.pairwise_append, List.pairwise_cons] at increasing
  obtain ⟨_, ⟨behind, _⟩, ahead⟩ := increasing
  have listed : item ∈ wordRange start stop := by simp [split]
  constructor
  · intro member
    have inRange : word ∈ wordRange start stop := by simp [split, member]
    exact ⟨(mem_word_range.mp inRange).1, ahead word member item List.mem_cons_self⟩
  · intro bounds
    rcases bounds with ⟨lower, smaller⟩
    have inRange : word ∈ wordRange start stop :=
      mem_word_range.mpr ⟨lower, Nat.lt_trans smaller (mem_word_range.mp listed).2⟩
    rw [split, List.mem_append, List.mem_cons] at inRange
    rcases inRange with member | same | later
    · exact member
    · subst same
      exact absurd smaller (Nat.lt_irrefl _)
    · exact absurd (behind word later) (Nat.lt_asymm smaller)

section Loops

variable {Item State : Type}

theorem anyM_eq_some_false_iff (items : List Item) (probe : Item → Option Bool) :
    items.anyM probe = some false ↔ ∀ item ∈ items, probe item = some false := by
  induction items with
  | nil => simp [List.anyM]
  | cons item rest ih =>
      simp only [List.anyM, List.forall_mem_cons]
      cases probed : probe item with
      | none => simp
      | some hit =>
          cases hit with
          | true => simp
          | false => simpa using ih

theorem anyM_eq_findM? (items : List Item) (probe : Item → Option Bool) :
    items.anyM probe = (items.findM? probe).map Option.isSome := by
  induction items with
  | nil => rfl
  | cons item rest ih =>
      simp only [List.anyM, List.findM?]
      cases probe item with
      | none => rfl
      | some hit =>
          cases hit with
          | true => rfl
          | false => exact ih

theorem findM?_eq_some_none_iff (items : List Item) (probe : Item → Option Bool) :
    items.findM? probe = some none ↔ ∀ item ∈ items, probe item = some false := by
  induction items with
  | nil => simp [List.findM?]
  | cons item rest ih =>
      simp only [List.findM?, List.forall_mem_cons]
      cases probed : probe item with
      | none => simp
      | some hit =>
          cases hit with
          | true => simp
          | false => simpa using ih

theorem findM?_eq_some_some_iff (items : List Item) (probe : Item → Option Bool) (found : Item) :
    items.findM? probe = some (some found) ↔
      ∃ before after, items = before ++ found :: after ∧
        (∀ item ∈ before, probe item = some false) ∧ probe found = some true := by
  induction items with
  | nil => simp [List.findM?]
  | cons item rest ih =>
      simp only [List.findM?]
      cases probed : probe item with
      | none =>
          simp only [Option.bind_eq_bind, Option.bind_none, false_iff, reduceCtorEq]
          intro first
          rcases first with ⟨before, after, split, missed, hit⟩
          cases before with
          | nil =>
              cases split
              simp [probed] at hit
          | cons first others =>
              cases split
              simp [probed] at missed
      | some hit =>
          cases hit with
          | true =>
              simp only [Option.bind_eq_bind, Option.bind_some, Option.pure_def,
                Option.some.injEq]
              constructor
              · intro same
                subst same
                exact ⟨[], rest, rfl, by simp, probed⟩
              · intro first
                rcases first with ⟨before, after, split, missed, _⟩
                cases before with
                | nil => exact (List.cons.inj split).1
                | cons first others =>
                    cases split
                    simp [probed] at missed
          | false =>
              simp only [Option.bind_eq_bind, Option.bind_some, ih]
              constructor
              · intro later
                rcases later with ⟨before, after, rfl, missed, last⟩
                exact ⟨item :: before, after, rfl, List.forall_mem_cons.mpr ⟨probed, missed⟩, last⟩
              · intro first
                rcases first with ⟨before, after, split, missed, last⟩
                cases before with
                | nil =>
                    cases split
                    simp [probed] at last
                | cons first others =>
                    cases split
                    exact ⟨others, after, rfl, (List.forall_mem_cons.mp missed).2, last⟩

theorem findM?_word_range_iff {width : Nat} (start stop found : BitVec width)
    (probe : BitVec width → Option Bool) :
    (wordRange start stop).findM? probe = some (some found) ↔
      start.toNat ≤ found.toNat ∧ found.toNat < stop.toNat ∧
        (∀ other, start.toNat ≤ other.toNat → other.toNat < found.toNat →
          probe other = some false) ∧ probe found = some true := by
  rw [findM?_eq_some_some_iff]
  constructor
  · intro first
    rcases first with ⟨before, after, split, missed, hit⟩
    have listed : found ∈ wordRange start stop := by simp [split]
    obtain ⟨lower, upper⟩ := mem_word_range.mp listed
    refine ⟨lower, upper, ?_, hit⟩
    intro other above below
    exact missed other ((mem_before_word_range split).mpr ⟨above, below⟩)
  · intro first
    rcases first with ⟨lower, upper, missed, hit⟩
    obtain ⟨before, after, split⟩ := List.append_of_mem (mem_word_range.mpr ⟨lower, upper⟩)
    refine ⟨before, after, split, ?_, hit⟩
    intro other member
    obtain ⟨above, below⟩ := (mem_before_word_range split).mp member
    exact missed other above below

theorem anyM_word_range_iff {width : Nat} (start stop : BitVec width)
    (probe : BitVec width → Option Bool) :
    (wordRange start stop).anyM probe = some true ↔
      ∃ word, start.toNat ≤ word.toNat ∧ word.toNat < stop.toNat ∧
        (∀ other, start.toNat ≤ other.toNat → other.toNat < word.toNat →
          probe other = some false) ∧ probe word = some true := by
  simp only [anyM_eq_findM?, Option.map_eq_some_iff, Option.isSome_iff_exists,
    ← findM?_word_range_iff]
  constructor
  · intro searched
    rcases searched with ⟨_, ran, word, rfl⟩
    exact ⟨word, ran⟩
  · intro found
    rcases found with ⟨word, ran⟩
    exact ⟨some word, ran, word, rfl⟩

/-- The invariant rule of a counted loop: a trip that keeps the invariant does not abort, so the
whole loop returns and ends in the invariant. -/
theorem foldlM_word_range {width : Nat} (body : State → BitVec width → Option State)
    (invariant : Nat → State → Prop) (stop : BitVec width) (state : State)
    (initial : invariant 0 state)
    (trip : ∀ (index : BitVec width) current, index.toNat < stop.toNat →
      invariant index.toNat current →
      ∃ next, body current index = some next ∧ invariant (index.toNat + 1) next) :
    ∃ final, (wordRange 0 stop).foldlM body state = some final ∧ invariant stop.toNat final := by
  have bounded := stop.isLt
  have upTo : ∀ count, count ≤ stop.toNat → ∃ final,
      ((List.range' 0 count).map (BitVec.ofNat width)).foldlM body state = some final ∧
        invariant count final := by
    intro count within
    induction count with
    | zero => exact ⟨state, rfl, initial⟩
    | succ count ih =>
        obtain ⟨current, run, held⟩ := ih (by omega)
        have value : (BitVec.ofNat width count).toNat = count := by
          rw [BitVec.toNat_ofNat, Nat.mod_eq_of_lt (by omega)]
        obtain ⟨next, stepped, kept⟩ := trip (BitVec.ofNat width count) current
          (by omega) (by rwa [value])
        refine ⟨next, ?_, by rwa [value] at kept⟩
        rw [List.range'_1_concat, List.map_append, List.foldlM_append, run]
        simpa using stepped
  simpa [wordRange] using upTo stop.toNat (Nat.le_refl _)

/-- The invariant rule of a run: what every step keeps holds at the end. -/
theorem foldlM_invariant {Item : Type} {body : State → Item → Option State}
    (invariant : State → Prop)
    (kept : ∀ current item next, invariant current → body current item = some next →
      invariant next)
    (items : List Item) {state final : State} (initial : invariant state)
    (ran : items.foldlM body state = some final) : invariant final := by
  induction items generalizing state with
  | nil =>
      cases ran
      exact initial
  | cons item items ih =>
      rw [List.foldlM_cons] at ran
      obtain ⟨next, stepped, rest⟩ := Option.bind_eq_some_iff.mp ran
      exact ih (kept state item next initial stepped) rest

theorem foldlM_range_eq (body : State → Nat → Option State) (state : Nat → State)
    (start count : Nat)
    (trip : ∀ index, start ≤ index → index < start + count →
      body (state index) index = some (state (index + 1))) :
    (List.range' start count).foldlM body (state start) = some (state (start + count)) := by
  induction count with
  | zero => rfl
  | succ count ih =>
      have before := ih fun index lower upper => trip index lower (by omega)
      rw [List.range'_1_concat, List.foldlM_append, before]
      have last := trip (start + count) (by omega) (by omega)
      simpa [Nat.add_assoc] using last

end Loops

end RustWord
