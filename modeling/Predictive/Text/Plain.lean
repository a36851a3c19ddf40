import Predictive.Text.Utf8

/-!
# Text without terminal control

A terminal takes some characters of a text as commands: control characters by themselves, and sequences that begin
with an escape character. `plain` leaves what a terminal would show, and the four controls that only move the place
of writing (tab, line feed, form feed, carriage return).

Such a control is shown in the midst of a sequence too, and what follows it is then taken as text until the next
character that is not shown; the sequence goes on there. A text of shown characters stays as it is
(`plain_eq_self`).
-/

namespace Predictive.Text

/-- What the characters read so far have begun. -/
inductive Control where
  /-- Nothing: characters are text. -/
  | text
  /-- An escape character. -/
  | escape
  /-- An escape character and characters that qualify what comes. -/
  | qualified
  /-- A control sequence, up to a character from `@` to `~`. -/
  | sequence
  /-- A device control string before its parameters. -/
  | deviceStart
  /-- A device control string in its parameters. -/
  | deviceParameters
  /-- A device control string after its parameters. -/
  | deviceQualified
  /-- The body of a device control string, or a string that is for no one: up to a byte `9C`. -/
  | string
  /-- A command to the operating system, up to a bell. -/
  | command
deriving DecidableEq, Inhabited

namespace Control

/-- Whether the number of a character lies between two others. -/
def isWithin (c : Char) (first last : Nat) : Bool := first ≤ c.toNat && c.toNat ≤ last

/-- Whether a character only moves the place of writing. -/
def isMove (c : Char) : Bool := c == '\t' || c == '\n' || c == '\x0c' || c == '\r'

/-- What has begun after one more character. Cancel and substitute end everything, and an escape character ends
everything and begins anew. -/
def after (s : Control) (c : Char) : Control :=
  if c = '\x18' ∨ c = '\x1a' then text
  else if c = '\x1b' then escape
  else
    match s with
    | text => text
    | escape =>
      if isWithin c 0x20 0x2F then qualified
      else if c = '[' then sequence
      else if c = ']' then command
      else if c = 'P' then deviceStart
      else if c = 'X' ∨ c = '^' ∨ c = '_' then string
      else if isWithin c 0x30 0x7E then text
      else escape
    | qualified => if isWithin c 0x30 0x7E then text else qualified
    | sequence => if isWithin c 0x40 0x7E then text else sequence
    | deviceStart =>
      if isWithin c 0x20 0x2F then deviceQualified
      else if isWithin c 0x30 0x3F then deviceParameters
      else if isWithin c 0x40 0x7E then string
      else deviceStart
    | deviceParameters =>
      if isWithin c 0x20 0x2F then deviceQualified
      else if isWithin c 0x3C 0x7E then string
      else deviceParameters
    | deviceQualified => if isWithin c 0x30 0x7E then string else deviceQualified
    | string => if (utf8 c.toString).contains 0x9C then text else string
    | command => if c = '\x07' then text else command

/-- Whether a character is shown. -/
def shows (s : Control) (c : Char) : Bool :=
  match s with
  | text => isMove c || (0x20 ≤ c.toNat && c.toNat ≠ 0x7F)
  | escape | qualified | sequence => isMove c
  | _ => false

end Control

/-- The characters of a text that are shown. While characters are shown one after another (`showing`), they are taken
as text whatever has begun; a character beyond the seven-bit ones then ends what has begun. -/
def plainFrom : (showing : Bool) → Control → List Char → List Char
  | _, _, [] => []
  | true, s, c :: rest =>
    if Control.text.shows c then c :: plainFrom true (if c.toNat < 0x80 then s else .text) rest
    else plainFrom false (s.after c) rest
  | false, s, c :: rest =>
    if s.shows c then c :: plainFrom true (s.after c) rest
    else plainFrom false (s.after c) rest

/-- A text without terminal control. -/
def plain (s : String) : String := String.ofList (plainFrom false .text s.toList)

theorem plainFrom_eq_self {cs : List Char} (h : ∀ c ∈ cs, Control.text.shows c = true) (s : Control) :
    plainFrom true s cs = cs := by
  induction cs generalizing s with
  | nil => rfl
  | cons c rest ih =>
    have hc := h c (by simp)
    have hrest := ih (fun d hd => h d (by simp [hd]))
    simp [plainFrom, hc, hrest]

/-- A text of shown characters stays. -/
theorem plain_eq_self {s : String} (h : ∀ c ∈ s.toList, Control.text.shows c = true) : plain s = s := by
  cases hs : s.toList with
  | nil => simpa [plain, hs, plainFrom] using (String.toList_eq_nil_iff.mp hs).symm
  | cons c rest =>
    rw [hs] at h
    have hc := h c (by simp)
    have hrest : ∀ s, plainFrom true s rest = rest := plainFrom_eq_self fun d hd => h d (by simp [hd])
    rw [plain, hs, plainFrom, if_pos hc, hrest, ← hs, String.ofList_toList]

end Predictive.Text
