import RondOS.Kernel.Ticks
import RondOS.Kernel.VgaText

/-!
# Typing at the console

Scancodes arrive through the keyboard interrupt, between ticks of the timer, and `putc` turns what
they stand for into cells. A person at the keyboard edits lines: this module states that editor and
follows the machine through whole sequences of interrupts to show that the screen is its display.
-/

namespace RondOS.LineEditor

open ByteMemory RustWord Console VgaText VgaInterrupt Pic8259 Pic Ticks

set_option autoImplicit false

/-- The finished lines, oldest first, and the line under the cursor. -/
structure Editor where
  done : List (List Byte)
  line : List Byte
  deriving DecidableEq

def Editor.empty : Editor where
  done := []
  line := []

/-- A full line is finished by its last character. Backspace stays in the line. -/
def Editor.type (editor : Editor) (ch : Byte) : Editor :=
  if ch = 0x0a then { done := editor.done ++ [editor.line], line := [] }
  else if ch = 0x08 then { editor with line := editor.line.dropLast }
  else if editor.line.length = 79 then { done := editor.done ++ [editor.line ++ [ch]], line := [] }
  else { editor with line := editor.line ++ [ch] }

def textRow (color : ColorCode) (text : List Byte) : Row :=
  fun i => (text[i.val]?).elim (blank color) fun ch => { asciiCharacter := ch, colorCode := color }

/-- The screen of `vga` is the display of the editor, with the upper rows of `start` scrolled up
above its lines. -/
structure Shown (start : Vga) (editor : Editor) (vga : Vga) : Prop where
  upper : upperRows vga.chars =
    lastRows 24 (upperRows start.chars ++ editor.done.map (textRow start.curColor))
  bottom : vga.chars 24 = textRow start.curColor editor.line
  column : vga.colPos = editor.line.length
  short : editor.line.length < 80
  color : vga.curColor = start.curColor
  tracks : Tracks vga

section Rows

variable (color : ColorCode) (text : List Byte)

theorem text_row_nil : textRow color [] = blankRow color := rfl

theorem text_row_append (ch : Byte) :
    textRow color (text ++ [ch]) =
      place (textRow color text) text.length { asciiCharacter := ch, colorCode := color } := by
  funext i
  rw [textRow, place, textRow, List.getElem?_append]
  by_cases before : i.val < text.length
  · rw [if_pos before, if_neg (Nat.ne_of_lt before)]
  · rw [if_neg before]
    by_cases last : i.val = text.length
    · rw [if_pos last, last, Nat.sub_self]
      rfl
    · have beyond : [ch][i.val - text.length]? = none :=
        List.getElem?_eq_none (by rw [List.length_singleton]; omega)
      have nothing : text[i.val]? = none := List.getElem?_eq_none (by omega)
      rw [if_neg last, beyond, nothing]

theorem text_row_drop_last :
    textRow color text.dropLast = place (textRow color text) (text.length - 1) (blank color) := by
  funext i
  rw [textRow, place, textRow, List.getElem?_dropLast]
  by_cases before : i.val < text.length - 1
  · rw [if_pos before, if_neg (Nat.ne_of_lt before)]
  · rw [if_neg before]
    by_cases last : i.val = text.length - 1
    · rw [if_pos last]
      rfl
    · have nothing : text[i.val]? = none := List.getElem?_eq_none (by omega)
      rw [if_neg last, nothing]

theorem last_rows_push {rows : List Row} (row : Row) (enough : 24 ≤ rows.length) :
    (lastRows 24 rows ++ [row]).drop 1 = lastRows 24 (rows ++ [row]) := by
  have more : rows.length + 1 - 24 = rows.length - 24 + 1 := by omega
  rw [lastRows, lastRows, ← List.drop_append_of_le_length (Nat.sub_le _ _), List.drop_drop,
    List.length_append, List.length_singleton, more]

theorem upper_rows_fed (chars : Screen) :
    upperRows (scrolled color chars) = (upperRows chars ++ [chars 24]).drop 1 := by
  rw [← upper_rows_scrolled color chars]
  rfl

end Rows

section Keys

variable {start vga : Vga} {editor : Editor}

theorem shown_fed {done : List (List Byte)} {line : List Byte}
    (upper : upperRows vga.chars =
      lastRows 24 (upperRows start.chars ++ done.map (textRow start.curColor)))
    (bottom : vga.chars 24 = textRow start.curColor line) (color : vga.curColor = start.curColor) :
    Shown start { done := done ++ [line], line := [] } vga.fed.synced where
  upper := by
    have enough : 24 ≤ (upperRows start.chars ++ done.map (textRow start.curColor)).length := by
      rw [List.length_append, upper_rows_length]
      omega
    change upperRows (scrolled vga.curColor vga.chars) = _
    rw [upper_rows_fed, upper, bottom, last_rows_push _ enough, List.append_assoc, List.map_append]
    rfl
  bottom := by
    change scrolled vga.curColor vga.chars 24 = _
    rw [bottom_row_scrolled, color, text_row_nil]
  column := rfl
  short := Nat.zero_lt_succ 79
  color := color
  tracks := synced_cursor vga.fed (Nat.zero_lt_succ 79)

theorem shown_type (shown : Shown start editor vga) {ch : Byte}
    (typed : ch = 0x0a ∨ ch = 0x08 ∨ Console.Shows ch) :
    Shown start (editor.type ch) (vga.wrote ch) := by
  have short := shown.short
  have column := shown.column
  have inside : vga.colPos < 80 := by rw [column]; exact short
  rcases typed with rfl | rfl | glyph
  · exact shown_fed shown.upper shown.bottom shown.color
  · have erases : editor.type 0x08 = { editor with line := editor.line.dropLast } := rfl
    rw [erases, wrote_back]
    by_cases first : vga.colPos = 0
    · have empty : editor.line = [] := List.length_eq_zero_iff.mp (by omega)
      rw [if_pos first, empty]
      have same : Shown start { editor with line := [] } vga := by
        rw [← empty]
        exact shown
      exact same
    · rw [if_neg first]
      have back : vga.colPos - 1 < 80 := by omega
      refine ⟨?_, ?_, ?_, ?_, shown.color, synced_cursor _ back⟩
      · change upperRows (setCell vga.chars 24 (vga.colPos - 1) (blank vga.curColor)) = _
        rw [upper_rows_set_cell]
        exact shown.upper
      · change setCell vga.chars 24 (vga.colPos - 1) (blank vga.curColor) 24 = _
        rw [bottom_row_set_cell, shown.bottom, column, shown.color, text_row_drop_last]
      · change vga.colPos - 1 = editor.line.dropLast.length
        rw [List.length_dropLast, column]
      · change editor.line.dropLast.length < 80
        rw [List.length_dropLast]
        omega
  · have bottom : (vga.placed ch).chars 24 = textRow start.curColor (editor.line ++ [ch]) := by
      rw [text_row_append, ← shown.bottom, ← column, ← shown.color]
      exact bottom_row_set_cell _ _ _
    have upper : upperRows (vga.placed ch).chars = upperRows vga.chars := upper_rows_set_cell _ _ _
    rw [wrote_character glyph, Editor.type, if_neg glyph.1, if_neg glyph.2.2.1, column]
    by_cases full : editor.line.length = 79
    · rw [if_pos full, if_pos full]
      exact shown_fed (upper.trans shown.upper) bottom shown.color
    · rw [if_neg full, if_neg full]
      have right : editor.line.length + 1 < 80 := by omega
      refine ⟨upper.trans shown.upper, bottom, ?_, ?_, shown.color, synced_cursor _ right⟩
      · change editor.line.length + 1 = (editor.line ++ [ch]).length
        rw [List.length_append, List.length_singleton]
      · change (editor.line ++ [ch]).length < 80
        rw [List.length_append, List.length_singleton]
        exact right

end Keys

theorem shown_after_println {prof : Profile} {screen vga : Vga} {text : List Byte}
    (inside : screen.colPos < 80)
    (printed : screen.writeBytes prof (text ++ [0x0a]) = some vga) :
    Shown vga Editor.empty vga := by
  obtain ⟨middle, written, middleInside, _⟩ := write_bytes_run prof text screen inside
  have fed : vga = middle.fed.synced := by
    rw [Vga.writeBytes, List.foldlM_append] at printed
    obtain ⟨reached, first, last⟩ := Option.bind_eq_some_iff.mp printed
    rw [Vga.writeBytes, first] at written
    cases written
    have same : some vga = some middle.fed.synced :=
      last.symm.trans (write_bytes_cons prof middle 0x0a [] middleInside)
    exact Option.some.inj same
  subst fed
  refine ⟨?_, ?_, rfl, Nat.zero_lt_succ 79, rfl, synced_cursor _ (Nat.zero_lt_succ 79)⟩
  · have all : (upperRows middle.fed.synced.chars ++ ([] : List Row)).length - 24 = 0 := by
      rw [List.append_nil, upper_rows_length]
    rw [Editor.empty, List.map_nil, lastRows, all, List.drop_zero, List.append_nil]
  · exact bottom_row_scrolled middle.curColor middle.chars

def Interrupt : Event → Prop
  | .main _ => False
  | .irq line scancode _ => line.val = 0 ∨ (line.val = 1 ∧ scancode ≠ 0)

def typedBy : Event → Option Byte
  | .main _ => none
  | .irq line scancode _ => if line.val = 1 then (scancodeToChar scancode).join else none

theorem typed_join {code ch : Byte} (decoded : (scancodeToChar code).join = some ch) :
    ch = 0x0a ∨ ch = 0x08 ∨ Console.Shows ch := by
  apply typed_cases
  exact ⟨code, Option.join_eq_some_iff.mp decoded⟩

section Typing

variable {prof : Profile} {image : Image} {machine : Machine} {start : Vga} {editor : Editor}

theorem interrupt_step {event : Event} (quiet : Quiet image machine)
    (shown : Shown start editor machine.vga) (room : machine.ticks.toNat + 1 < 2 ^ 64)
    (interrupt : Interrupt event) :
    ∃ next, machine.step prof image event = some next ∧ next.pics = machine.pics ∧
      next.ticks.toNat = machine.ticks.toNat + (isTimer event).toNat ∧
      Shown start ((typedBy event).elim editor editor.type) next.vga := by
  cases event with
  | main vga => exact interrupt.elim
  | irq line scancode frame =>
      rcases interrupt with timer | ⟨keyboard, valid⟩
      · have first : line = 0 := Fin.ext timer
        subst first
        have counted : prof.add machine.ticks 1 = some (machine.ticks + 1) :=
          add_exact prof machine.ticks 1 room
        refine ⟨{ machine with ticks := machine.ticks + 1 }, ?_, rfl, ?_, shown⟩
        · rw [timer_served quiet, counted, Option.map_some]
        · exact BitVec.toNat_add_of_lt room
      · have second : line = 1 := Fin.ext keyboard
        subst second
        have inside : machine.vga.colPos < 80 := by
          rw [shown.column]
          exact shown.short
        refine ⟨_, key_served quiet frame valid inside, rfl, rfl, ?_⟩
        have types : typedBy (.irq 1 scancode frame) = (scancodeToChar scancode).join := rfl
        rw [types]
        cases decoded : (scancodeToChar scancode).join with
        | none => exact shown
        | some ch => exact shown_type shown (typed_join decoded)

/-- Whole sequences, by induction on the interrupts. -/
theorem interrupts_run (events : List Event) (quiet : Quiet image machine)
    (shown : Shown start editor machine.vga)
    (room : machine.ticks.toNat + events.length < 2 ^ 64)
    (interrupts : ∀ event ∈ events, Interrupt event) :
    ∃ final, runFrom prof image machine events = some final ∧ final.pics = machine.pics ∧
      final.ticks.toNat = machine.ticks.toNat + events.countP isTimer ∧
      Shown start ((events.filterMap typedBy).foldl Editor.type editor) final.vga := by
  induction events generalizing machine editor with
  | nil => exact ⟨machine, rfl, rfl, rfl, shown⟩
  | cons event events ih =>
      rw [List.length_cons] at room
      obtain ⟨next, stepped, samePics, counted, edited⟩ := interrupt_step quiet shown (by omega)
        (interrupts event List.mem_cons_self)
      have few : (isTimer event).toNat ≤ 1 := Bool.toNat_le _
      obtain ⟨final, ran, pics, ticks, displayed⟩ := ih (quiet_step quiet stepped) edited (by omega)
        fun later member => interrupts later (List.mem_cons_of_mem _ member)
      refine ⟨final, ?_, pics.trans samePics, ?_, ?_⟩
      · rw [runFrom, List.foldlM_cons, stepped]
        exact ran
      · rw [ticks, counted, List.countP_cons]
        cases isTimer event with
        | false => simp
        | true =>
            simp only [Bool.toNat_true, if_true]
            omega
      · rw [List.filterMap_cons]
        cases typed : typedBy event with
        | none =>
            rw [typed] at displayed
            exact displayed
        | some ch =>
            rw [typed] at displayed
            exact displayed

end Typing

/-- Once `main` has printed its last line and halts, any ticks and keystrokes in any order are all
handled, whatever was delivered before: the screen is the display of the edited lines with the
cursor behind the last character, the ticks are counted, and nothing new stays in service. -/
theorem typing_edits_lines (prof : Profile) (image : Image) (cs : BitVec 16) (base : BitVec 32)
    (initial started idle : Machine) (boot events : List Event) (screen : Vga) (text : List Byte)
    (enabled : setup prof image cs base initial = some started)
    (booted : runFrom prof image started boot = some idle)
    (inside : screen.colPos < 80)
    (printed : screen.writeBytes prof (text ++ [0x0a]) = some idle.vga)
    (room : idle.ticks.toNat + events.length < 2 ^ 64)
    (interrupts : ∀ event ∈ events, Interrupt event) :
    ∃ final, runFrom prof image idle events = some final ∧
      Shown idle.vga ((events.filterMap typedBy).foldl Editor.type Editor.empty) final.vga ∧
      final.ticks.toNat = idle.ticks.toNat + events.countP isTimer ∧
      final.pics = idle.pics := by
  obtain ⟨idt, ready, dispatches⟩ := setup_ready prof image cs base initial
  cases ready.symm.trans enabled
  have start : Quiet image { initial with pics := configured 0 0, idt } :=
    ⟨dispatches, 0, 0, rfl, by decide⟩
  have quiet := quiet_run boot start booted
  have fresh := shown_after_println inside printed
  obtain ⟨final, ran, pics, ticks, shown⟩ := interrupts_run events quiet fresh room interrupts
  exact ⟨final, ran, shown, ticks, pics⟩

/-- The keys `a`, a tick, `b` and backspace leave an `a` on the screen. -/
theorem keys_leave_one_letter :
    ∃ started idle final, setup .debug sampleImage 8 0 sampleMachine = some started ∧
      runFrom .debug sampleImage started [.main idle.vga] = some idle ∧
      runFrom .debug sampleImage idle
        [.irq 1 0x1e [], .irq 0 0 [], .irq 1 0x30 [], .irq 1 0x0e []] = some final ∧
      Shown idle.vga { done := [], line := [0x61] } final.vga ∧ final.ticks.toNat = 1 := by
  obtain ⟨idt, ready, dispatches⟩ := setup_ready .debug sampleImage 8 0 sampleMachine
  let started : Machine := { sampleMachine with pics := configured 0 0, idt }
  have inside : sampleMachine.vga.colPos < 80 := Nat.zero_lt_succ 79
  have printed : sampleMachine.vga.writeBytes .debug ([] ++ [0x0a]) =
      some (sampleMachine.vga.wrote 0x0a) :=
    write_bytes_cons .debug sampleMachine.vga 0x0a [] inside
  have booted : runFrom .debug sampleImage started [.main (sampleMachine.vga.wrote 0x0a)] =
      some { started with vga := sampleMachine.vga.wrote 0x0a } := rfl
  have room : sampleMachine.ticks.toNat + 4 < 2 ^ 64 := by decide
  have interrupts : ∀ event ∈ [Event.irq 1 0x1e [], .irq 0 0 [], .irq 1 0x30 [], .irq 1 0x0e []],
      Interrupt event := by
    simp [Interrupt]
  obtain ⟨final, ran, shown, ticks, _⟩ := typing_edits_lines .debug sampleImage 8 0 sampleMachine
    started _ _ [.irq 1 0x1e [], .irq 0 0 [], .irq 1 0x30 [], .irq 1 0x0e []] sampleMachine.vga []
    ready booted inside printed room interrupts
  exact ⟨started, _, final, ready, booted, ran, shown, ticks⟩

end RondOS.LineEditor
