import RondOS.Kernel.Vga

/-!
# The console commands

Beside writing text the console can be cleared, and its cursor be shown in a given shape or hidden.
All of this goes through one index register and one data port of the CRT controller. The module
shows that in any sequence of commands the text and the cursor shape do not get in each other's way.
-/

namespace RondOS.Console

open ByteMemory RustWord

set_option autoImplicit false

def Crtc.inb (crtc : Crtc) (port : BitVec 16) : Byte :=
  if port = 0x3d5 then crtc.reg crtc.index else crtc.index

def Vga.enableCursor (cursorStart cursorEnd : Byte) (vga : Vga) : Vga :=
  let vga := vga.outb (0x3d4, 0x0a)
  let vga := vga.outb (0x3d5, vga.crtc.inb 0x3d5 &&& 0xc0 ||| cursorStart)
  let vga := vga.outb (0x3d4, 0x0b)
  vga.outb (0x3d5, vga.crtc.inb 0x3d5 &&& 0xe0 ||| cursorEnd)

def Vga.disableCursor (vga : Vga) : Vga :=
  (vga.outb (0x3d4, 0x0a)).outb (0x3d5, 0x20)

/-- `clear` leaves the column where it is. -/
def Vga.clear (vga : Vga) : Vga := { vga with chars := fun _ _ => blank vga.curColor }

inductive Command where
  | writeStr (s : List Byte)
  | clear
  | enableCursor (cursorStart cursorEnd : Byte)
  | disableCursor

def Vga.perform (prof : Profile) (vga : Vga) : Command → Option Vga
  | .writeStr s => vga.writeBytes prof s
  | .clear => some vga.clear
  | .enableCursor cursorStart cursorEnd => some (vga.enableCursor cursorStart cursorEnd)
  | .disableCursor => some vga.disableCursor

def Vga.performAll (prof : Profile) (vga : Vga) (commands : List Command) : Option Vga :=
  commands.foldlM (Vga.perform prof) vga

def Command.onScreen : Command → Bool
  | .writeStr _ => true
  | .clear => true
  | .enableCursor _ _ => false
  | .disableCursor => false

/-- Whether the cursor is shown after a command; bit 5 of the start register hides it. -/
def Command.shows (visible : Bool) : Command → Bool
  | .writeStr _ => visible
  | .clear => visible
  | .enableCursor cursorStart _ => !cursorStart.getLsbD 5
  | .disableCursor => false

def Vga.cursorVisible (vga : Vga) : Bool := !(vga.crtc.reg 0x0a).getLsbD 5

structure SameText (first second : Vga) : Prop where
  chars : first.chars = second.chars
  colPos : first.colPos = second.colPos
  curColor : first.curColor = second.curColor

structure SameShape (first second : Vga) : Prop where
  start : first.crtc.reg 0x0a = second.crtc.reg 0x0a
  stop : first.crtc.reg 0x0b = second.crtc.reg 0x0b

def Command.apply (vga : Vga) : Command → Vga
  | .writeStr s => s.foldl (fun current c => current.wrote c) vga
  | .clear => vga.clear
  | .enableCursor cursorStart cursorEnd => vga.enableCursor cursorStart cursorEnd
  | .disableCursor => vga.disableCursor

theorem write_bytes_wrote (prof : Profile) (s : List Byte) (vga : Vga)
    (inside : vga.colPos < 80) :
    vga.writeBytes prof s = some (s.foldl (fun current c => current.wrote c) vga) ∧
      (s.foldl (fun current c => current.wrote c) vga).colPos < 80 := by
  induction s generalizing vga with
  | nil => exact ⟨rfl, inside⟩
  | cons c s ih =>
      rw [write_bytes_cons prof vga c s inside]
      exact ih (vga.wrote c) (wrote_col_lt vga c inside)

theorem perform_apply (prof : Profile) (vga : Vga) (command : Command)
    (inside : vga.colPos < 80) :
    vga.perform prof command = some (command.apply vga) ∧ (command.apply vga).colPos < 80 := by
  cases command with
  | writeStr s => exact write_bytes_wrote prof s vga inside
  | clear => exact ⟨rfl, inside⟩
  | enableCursor cursorStart cursorEnd => exact ⟨rfl, inside⟩
  | disableCursor => exact ⟨rfl, inside⟩

theorem perform_all_apply (prof : Profile) (commands : List Command) (vga : Vga)
    (inside : vga.colPos < 80) :
    vga.performAll prof commands = some (commands.foldl Command.apply vga) ∧
      (commands.foldl Command.apply vga).colPos < 80 := by
  induction commands generalizing vga with
  | nil => exact ⟨rfl, inside⟩
  | cons command commands ih =>
      obtain ⟨performed, after⟩ := perform_apply prof vga command inside
      rw [Vga.performAll, List.foldlM_cons, performed, Option.bind_eq_bind, Option.bind_some]
      exact ih (command.apply vga) after

theorem enable_cursor_shape (vga : Vga) (cursorStart cursorEnd : Byte) :
    (vga.enableCursor cursorStart cursorEnd).crtc.reg 0x0a =
        (vga.crtc.reg 0x0a &&& 0xc0 ||| cursorStart) ∧
      (vga.enableCursor cursorStart cursorEnd).crtc.reg 0x0b =
        (vga.crtc.reg 0x0b &&& 0xe0 ||| cursorEnd) :=
  ⟨rfl, rfl⟩

theorem disable_cursor_shape (vga : Vga) :
    vga.disableCursor.crtc.reg 0x0a = 0x20 ∧
      vga.disableCursor.crtc.reg 0x0b = vga.crtc.reg 0x0b :=
  ⟨rfl, rfl⟩

section Text

variable {first second : Vga}

theorem SameText.effect (same : SameText first second) (c : Byte) :
    SameText (first.effect c) (second.effect c) := by
  cases first with
  | mk col color chars crtc =>
      cases second with
      | mk col' color' chars' crtc' =>
          obtain ⟨sameChars, sameCol, sameColor⟩ := same
          cases sameChars
          cases sameCol
          cases sameColor
          unfold Vga.effect
          split_ifs <;> exact ⟨rfl, rfl, rfl⟩

theorem wrote_text (vga : Vga) (c : Byte) : SameText (vga.wrote c) (vga.effect c) := by
  unfold Vga.wrote
  split_ifs <;> exact ⟨rfl, rfl, rfl⟩

theorem SameText.symm (same : SameText first second) : SameText second first :=
  ⟨same.chars.symm, same.colPos.symm, same.curColor.symm⟩

theorem SameText.trans {third : Vga} (same : SameText first second)
    (next : SameText second third) : SameText first third :=
  ⟨same.chars.trans next.chars, same.colPos.trans next.colPos, same.curColor.trans next.curColor⟩

theorem SameText.wrote (same : SameText first second) (c : Byte) :
    SameText (first.wrote c) (second.wrote c) :=
  ((wrote_text first c).trans (same.effect c)).trans (wrote_text second c).symm

theorem SameText.apply (same : SameText first second) (command : Command) :
    SameText (command.apply first) (command.apply second) := by
  cases command with
  | writeStr s =>
      induction s generalizing first second with
      | nil => exact same
      | cons c s ih => exact ih (same.wrote c)
  | clear => exact ⟨by simp only [Command.apply, Vga.clear, same.curColor], same.colPos, same.curColor⟩
  | enableCursor cursorStart cursorEnd => exact ⟨same.chars, same.colPos, same.curColor⟩
  | disableCursor => exact ⟨same.chars, same.colPos, same.curColor⟩

theorem SameText.run_all (same : SameText first second) (commands : List Command) :
    SameText (commands.foldl Command.apply first) (commands.foldl Command.apply second) := by
  induction commands generalizing first second with
  | nil => exact same
  | cons command commands ih => exact ih (same.apply command)

/-- The commands for the cursor can be left out as far as the text goes. -/
theorem SameText.run (commands : List Command) (same : SameText first second) :
    SameText (commands.foldl Command.apply first)
      ((commands.filter Command.onScreen).foldl Command.apply second) := by
  induction commands generalizing first second with
  | nil => exact same
  | cons command commands ih =>
      rw [List.foldl_cons]
      cases kind : command.onScreen with
      | true =>
          rw [List.filter_cons_of_pos kind, List.foldl_cons]
          exact ih (same.apply command)
      | false =>
          rw [List.filter_cons_of_neg (by rw [kind]; decide)]
          cases command with
          | writeStr s => cases kind
          | clear => cases kind
          | enableCursor cursorStart cursorEnd =>
              exact ih ⟨same.chars, same.colPos, same.curColor⟩
          | disableCursor => exact ih ⟨same.chars, same.colPos, same.curColor⟩

structure SameColumn (first second : Vga) : Prop where
  colPos : first.colPos = second.colPos
  curColor : first.curColor = second.curColor

theorem SameColumn.effect (same : SameColumn first second) (c : Byte) :
    SameColumn (first.effect c) (second.effect c) := by
  have column := same.colPos
  unfold Vga.effect
  rw [column]
  split_ifs
  · exact ⟨rfl, same.curColor⟩
  · exact ⟨rfl, same.curColor⟩
  · exact same
  · exact ⟨rfl, same.curColor⟩
  · exact ⟨rfl, same.curColor⟩
  · exact ⟨rfl, same.curColor⟩
  · exact ⟨rfl, same.curColor⟩

theorem SameColumn.apply (same : SameColumn first second) (command : Command) :
    SameColumn (command.apply first) (command.apply second) := by
  cases command with
  | writeStr s =>
      induction s generalizing first second with
      | nil => exact same
      | cons c s ih =>
          have left := wrote_text first c
          have right := wrote_text second c
          have middle := same.effect c
          apply ih
          exact ⟨by rw [left.colPos, middle.colPos, right.colPos],
            by rw [left.curColor, middle.curColor, right.curColor]⟩
  | clear => exact ⟨same.colPos, same.curColor⟩
  | enableCursor cursorStart cursorEnd => exact ⟨same.colPos, same.curColor⟩
  | disableCursor => exact ⟨same.colPos, same.curColor⟩

theorem SameColumn.run_clear (commands : List Command) (same : SameColumn first second)
    (cleared : Command.clear ∈ commands) :
    SameText (commands.foldl Command.apply first) (commands.foldl Command.apply second) := by
  induction commands generalizing first second with
  | nil => cases cleared
  | cons command commands ih =>
      rcases List.mem_cons.mp cleared with here | later
      · subst here
        have blanked : SameText first.clear second.clear :=
          ⟨by simp only [Vga.clear, same.curColor], same.colPos, same.curColor⟩
        exact blanked.run_all commands
      · exact ih (same.apply command) later

end Text

section Shape

variable {first second : Vga}

theorem wrote_shape (vga : Vga) (c : Byte) : SameShape (vga.wrote c) vga := by
  have kept := effect_keeps_crtc vga c
  unfold Vga.wrote
  split_ifs
  · constructor
    · simp [Vga.synced, Crtc.located, kept]
    · simp [Vga.synced, Crtc.located, kept]
  · exact ⟨by rw [kept], by rw [kept]⟩

theorem screen_command_shape (vga : Vga) {command : Command} (kind : command.onScreen = true) :
    SameShape (command.apply vga) vga := by
  cases command with
  | writeStr s =>
      induction s generalizing vga with
      | nil => exact ⟨rfl, rfl⟩
      | cons c s ih =>
          have step := wrote_shape vga c
          have rest := ih (vga.wrote c) rfl
          exact ⟨rest.start.trans step.start, rest.stop.trans step.stop⟩
  | clear => exact ⟨rfl, rfl⟩
  | enableCursor cursorStart cursorEnd => cases kind
  | disableCursor => cases kind

theorem SameShape.cursor_command (same : SameShape first second) {command : Command}
    (kind : command.onScreen = false) : SameShape (command.apply first) (command.apply second) := by
  cases command with
  | writeStr s => cases kind
  | clear => cases kind
  | enableCursor cursorStart cursorEnd =>
      have left := enable_cursor_shape first cursorStart cursorEnd
      have right := enable_cursor_shape second cursorStart cursorEnd
      rw [← same.start, ← same.stop] at right
      exact ⟨left.1.trans right.1.symm, left.2.trans right.2.symm⟩
  | disableCursor => exact ⟨rfl, same.stop⟩

theorem SameShape.run (commands : List Command) (same : SameShape first second) :
    SameShape (commands.foldl Command.apply first)
      ((commands.filter fun command => !command.onScreen).foldl Command.apply second) := by
  induction commands generalizing first second with
  | nil => exact same
  | cons command commands ih =>
      rw [List.foldl_cons]
      cases kind : command.onScreen with
      | true =>
          have step := screen_command_shape first kind
          rw [List.filter_cons_of_neg (by rw [kind]; decide)]
          exact ih ⟨step.start.trans same.start, step.stop.trans same.stop⟩
      | false =>
          rw [List.filter_cons_of_pos (by rw [kind]; decide), List.foldl_cons]
          exact ih (same.cursor_command kind)

theorem apply_visible (vga : Vga) (command : Command) :
    (command.apply vga).cursorVisible = command.shows vga.cursorVisible := by
  cases command with
  | writeStr s =>
      have kept : SameShape (Command.apply vga (.writeStr s)) vga := screen_command_shape vga rfl
      rw [Vga.cursorVisible, kept.start]
      rfl
  | clear => rfl
  | enableCursor cursorStart cursorEnd =>
      have hidden : (0xc0 : Byte).getLsbD 5 = false := by decide
      rw [Command.apply, Vga.cursorVisible, (enable_cursor_shape vga cursorStart cursorEnd).1,
        BitVec.getLsbD_or, BitVec.getLsbD_and, hidden, Bool.and_false, Bool.false_or]
      rfl
  | disableCursor =>
      have hidden : (!(0x20 : Byte).getLsbD 5) = false := by decide
      rw [Command.apply, Vga.cursorVisible, (disable_cursor_shape vga).1, hidden]
      rfl

theorem apply_tracks (vga : Vga) (command : Command) (inside : vga.colPos < 80)
    (tracks : Tracks vga) : Tracks (command.apply vga) := by
  cases command with
  | writeStr s =>
      induction s generalizing vga with
      | nil => exact tracks
      | cons c s ih =>
          exact ih (vga.wrote c) (wrote_col_lt vga c inside)
            (wrote_tracks vga c inside (Or.inl tracks))
  | clear => exact tracks
  | enableCursor cursorStart cursorEnd => exact tracks
  | disableCursor => exact tracks

end Shape

theorem run_visible (commands : List Command) (vga : Vga) :
    (commands.foldl Command.apply vga).cursorVisible =
      commands.foldl Command.shows vga.cursorVisible := by
  induction commands generalizing vga with
  | nil => rfl
  | cons command commands ih => rw [List.foldl_cons, ih, apply_visible, List.foldl_cons]

theorem run_tracks (prof : Profile) (commands : List Command) (vga : Vga)
    (inside : vga.colPos < 80) (tracks : Tracks vga) :
    Tracks (commands.foldl Command.apply vga) := by
  induction commands generalizing vga with
  | nil => exact tracks
  | cons command commands ih =>
      exact ih (command.apply vga) (perform_apply prof vga command inside).2
        (apply_tracks vga command inside tracks)

/-- Every sequence of commands runs through, and splits into two that do not see each other: the
text is that of the writes and clears alone, the shape that of the cursor commands alone. The
location registers follow the column throughout, the cursor is shown or hidden as the last cursor
command says, and behind a clear the screen does not depend on what it showed before. -/
theorem text_and_cursor_separate (prof : Profile) (commands : List Command) (vga : Vga)
    (inside : vga.colPos < 80) :
    ∃ final, vga.performAll prof commands = some final ∧ final.colPos < 80 ∧
      (∃ written, vga.performAll prof (commands.filter Command.onScreen) = some written ∧
        SameText final written) ∧
      (∃ shaped, vga.performAll prof (commands.filter fun command => !command.onScreen) =
          some shaped ∧ SameShape final shaped) ∧
      (Tracks vga → Tracks final) ∧
      final.cursorVisible = commands.foldl Command.shows vga.cursorVisible ∧
      (Command.clear ∈ commands → ∀ other, SameColumn vga other →
        ∃ otherFinal, other.performAll prof commands = some otherFinal ∧
          SameText final otherFinal) := by
  obtain ⟨run, finalInside⟩ := perform_all_apply prof commands vga inside
  refine ⟨_, run, finalInside, ?_, ?_, run_tracks prof commands vga inside,
    run_visible commands vga, ?_⟩
  · exact ⟨_, (perform_all_apply prof _ vga inside).1, SameText.run commands ⟨rfl, rfl, rfl⟩⟩
  · exact ⟨_, (perform_all_apply prof _ vga inside).1, SameShape.run commands ⟨rfl, rfl⟩⟩
  · intro cleared other same
    have otherInside : other.colPos < 80 := by
      rw [← same.colPos]
      exact inside
    exact ⟨_, (perform_all_apply prof commands other otherInside).1,
      SameColumn.run_clear commands same cleared⟩

/-- After a clear and a letter, with the cursor hidden in between. -/
theorem cleared_letter_separate :
    ∃ final, (Vga.new (fun _ _ => blank 0) ⟨0, fun _ => 0⟩).performAll .debug
        [.writeStr [0x61], .disableCursor, .clear, .writeStr [0x62]] = some final ∧
      final.cursorVisible = false ∧
      ∀ chars, ∃ otherFinal, (Vga.new chars ⟨0, fun _ => 0⟩).performAll .debug
          [.writeStr [0x61], .disableCursor, .clear, .writeStr [0x62]] = some otherFinal ∧
        SameText final otherFinal := by
  obtain ⟨final, run, _, _, _, _, visible, cleared⟩ := text_and_cursor_separate .debug
    [.writeStr [0x61], .disableCursor, .clear, .writeStr [0x62]]
    (Vga.new (fun _ _ => blank 0) ⟨0, fun _ => 0⟩) (by decide)
  exact ⟨final, run, visible, fun chars => cleared (by simp) _ ⟨rfl, rfl⟩⟩

end RondOS.Console
