import Mathlib

-- Functions of the C library on text, in the C locale. A string is the list of its
-- bytes before the NUL.
namespace Text

def bytes (s : String) : List UInt8 := s.toList.map fun c => UInt8.ofNat c.toNat

-- The string at the start of a buffer.
def cstring (buffer : List UInt8) : List UInt8 := buffer.takeWhile (· ≠ 0)

def isspace (b : UInt8) : Bool := b = 32 ∨ (9 ≤ b ∧ b ≤ 13)

def isdigit (b : UInt8) : Bool := 48 ≤ b ∧ b ≤ 57

def tolower (b : UInt8) : UInt8 := if 65 ≤ b ∧ b ≤ 90 then b + 32 else b

-- The test `strcasecmp(s, t) == 0`.
def strcaseeq (s t : List UInt8) : Bool := s.map tolower = t.map tolower

-- `none` stands for the NULL that is left when the separator does not occur.
def strsep (sep : UInt8) (s : List UInt8) : List UInt8 × Option (List UInt8) :=
  (s.takeWhile (· ≠ sep), (s.dropWhile (· ≠ sep)).tail?)

-- One line of `file`, of at most `room` bytes, and the rest.
def fgets : Nat → List UInt8 → List UInt8 × List UInt8
  | 0, file => ([], file)
  | _ + 1, [] => ([], [])
  | room + 1, b :: file =>
      if b = 10 then ([b], file)
      else
        match fgets room file with
        | (line, rest) => (b :: line, rest)

-- The lines that one call after the other returns before the end of the file.
def fgetsLoop (room : Nat) : Nat → List UInt8 → List (List UInt8)
  | 0, _ => []
  | fuel + 1, file =>
      if file = [] then []
      else
        match fgets room file with
        | (line, rest) => line :: fgetsLoop room fuel rest

-- Each call takes at least one byte, so that many calls are enough.
def fgetsLines (room : Nat) (file : List UInt8) : List (List UInt8) :=
  fgetsLoop room file.length file

def scanSign (s : List UInt8) : Bool × List UInt8 :=
  if s.head? = some 45 then (true, s.tail)
  else if s.head? = some 43 then (false, s.tail)
  else (false, s)

def ofDigits (digits : List UInt8) : Nat := digits.foldl (fun n d => 10 * n + (d.toNat - 48)) 0

-- `strtol` stops at the ends of `long`, and an `int` keeps the low 32 bits.
def strtolToInt (n : Int) : Int := Int.bmod (max (-2 ^ 63) (min (2 ^ 63 - 1) n)) (2 ^ 32)

-- A number as `strtol` in base 10 and the conversion `%d` read it.
def scanInt (s : List UInt8) : Option (Int × List UInt8) :=
  match scanSign (s.dropWhile isspace) with
  | (negative, s) =>
      if s.takeWhile isdigit = [] then none
      else
        let n : Int := ofDigits (s.takeWhile isdigit)
        some (strtolToInt (if negative then -n else n), s.dropWhile isdigit)

-- The conversion `%s`.
def scanWord (s : List UInt8) : Option (List UInt8 × List UInt8) :=
  match s.dropWhile isspace with
  | [] => none
  | b :: s => some (b :: s.takeWhile (!isspace ·), s.dropWhile (!isspace ·))

theorem fgets_append (room : Nat) (file : List UInt8) :
    (fgets room file).1 ++ (fgets room file).2 = file := by
  induction room generalizing file with
  | zero => rfl
  | succ room ih =>
      cases file with
      | nil => rfl
      | cons b file =>
          unfold fgets
          split_ifs
          · rfl
          · simpa using ih file

theorem length_fgets_le (room : Nat) (file : List UInt8) : (fgets room file).1.length ≤ room := by
  induction room generalizing file with
  | zero => exact Nat.le_refl 0
  | succ room ih =>
      cases file with
      | nil => exact Nat.zero_le _
      | cons b file =>
          unfold fgets
          split_ifs
          · exact Nat.succ_le_succ (Nat.zero_le room)
          · exact Nat.succ_le_succ (ih file)

theorem fgets_ne_nil {room : Nat} (hroom : 1 ≤ room) {file : List UInt8} (hfile : file ≠ []) :
    (fgets room file).1 ≠ [] := by
  obtain ⟨room, rfl⟩ := Nat.exists_eq_add_of_le' hroom
  obtain ⟨b, file, rfl⟩ := List.exists_cons_of_ne_nil hfile
  unfold fgets
  split_ifs
  · exact List.cons_ne_nil b []
  · exact List.cons_ne_nil b _

-- The lines are the file, cut into pieces.
theorem flatten_fgetsLoop {room : Nat} (hroom : 1 ≤ room) {fuel : Nat} {file : List UInt8}
    (hfuel : file.length ≤ fuel) : (fgetsLoop room fuel file).flatten = file := by
  induction fuel generalizing file with
  | zero => exact (List.length_eq_zero_iff.mp (Nat.le_zero.mp hfuel)).symm
  | succ fuel ih =>
      unfold fgetsLoop
      split_ifs with hfile
      · exact hfile.symm
      · have happend := fgets_append room file
        have hpos := List.length_pos_iff.mpr (fgets_ne_nil hroom hfile)
        have hlen := congrArg List.length happend
        rw [List.length_append] at hlen
        have hrest : (fgetsLoop room fuel (fgets room file).2).flatten = (fgets room file).2 :=
          ih (by omega)
        change (fgets room file).1 ++ (fgetsLoop room fuel (fgets room file).2).flatten = file
        rw [hrest, happend]

theorem flatten_fgetsLines {room : Nat} (hroom : 1 ≤ room) (file : List UInt8) :
    (fgetsLines room file).flatten = file :=
  flatten_fgetsLoop hroom (Nat.le_refl _)

theorem length_le_of_mem_fgetsLoop {room fuel : Nat} {file line : List UInt8}
    (h : line ∈ fgetsLoop room fuel file) : line.length ≤ room := by
  induction fuel generalizing file with
  | zero => cases h
  | succ fuel ih =>
      unfold fgetsLoop at h
      split_ifs at h
      · cases h
      · rcases List.mem_cons.mp h with rfl | h
        · exact length_fgets_le room file
        · exact ih h

end Text
