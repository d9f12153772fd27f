import SheetLint.Text.Blank

/-!
Texts as lists of characters. Offsets into a text count bytes of its UTF-8 form, so a text is cut at
a byte offset only where that offset falls between two characters.
-/
namespace SheetLint.Text

def byteSize (cs : List Char) : Nat := cs.foldr (fun c size => c.utf8Size + size) 0

@[simp] theorem byteSizeNil : byteSize [] = 0 := rfl

@[simp] theorem byteSizeCons (c : Char) (cs : List Char) :
    byteSize (c :: cs) = c.utf8Size + byteSize cs := rfl

@[simp] theorem byteSizeAppend (a b : List Char) : byteSize (a ++ b) = byteSize a + byteSize b := by
  induction a with
  | nil => simp
  | cons c cs ih => simp [ih, Nat.add_assoc]

theorem byteSizePos {cs : List Char} (some : cs ≠ []) : 0 < byteSize cs := by
  cases cs with
  | nil => exact absurd rfl some
  | cons c cs =>
    have := Char.utf8Size_pos c
    simp only [byteSizeCons]
    omega

def splitAt? : List Char → Nat → Option (List Char × List Char)
  | cs, 0 => some ([], cs)
  | [], _ + 1 => none
  | c :: cs, n + 1 =>
    if c.utf8Size ≤ n + 1 then (splitAt? cs (n + 1 - c.utf8Size)).map fun p => (c :: p.1, p.2)
    else none

def slice? (cs : List Char) (start stop : Nat) : Option (List Char) :=
  if start ≤ stop then
    (splitAt? cs start).bind fun p => (splitAt? p.2 (stop - start)).map (·.1)
  else none

theorem splitAtSize (a b : List Char) : splitAt? (a ++ b) (byteSize a) = some (a, b) := by
  induction a with
  | nil => simp [splitAt?]
  | cons c cs ih =>
    have pos := Char.utf8Size_pos c
    obtain ⟨n, hn⟩ : ∃ n, byteSize (c :: cs) = n + 1 := ⟨c.utf8Size + byteSize cs - 1, by simp; omega⟩
    have hrest : n + 1 - c.utf8Size = byteSize cs := by simp at hn; omega
    have hfit : c.utf8Size ≤ n + 1 := by simp at hn; omega
    rw [hn, List.cons_append, splitAt?, if_pos hfit, hrest, ih]
    rfl

theorem splitAtWhole {cs : List Char} {n : Nat} {p : List Char × List Char}
    (h : splitAt? cs n = some p) : cs = p.1 ++ p.2 ∧ byteSize p.1 = n := by
  fun_induction splitAt? cs n generalizing p with
  | case1 cs => cases h; simp
  | case2 => simp at h
  | case3 c cs n fits ih =>
    obtain ⟨q, hq, rfl⟩ := Option.map_eq_some_iff.1 h
    obtain ⟨hcs, hsize⟩ := ih hq
    exact ⟨by simp [← hcs], by simp [hsize]; omega⟩
  | case4 => simp at h

def sameIgnoringCase (a b : List Char) : Bool := a.map Char.toLower == b.map Char.toLower

def occursIn (part : List Char) : List Char → Bool
  | [] => part.isEmpty
  | c :: cs => part.isPrefixOf (c :: cs) || occursIn part cs

def splitFirst? (sep : Char) : List Char → Option (List Char × List Char)
  | [] => none
  | c :: cs => if c == sep then some ([], cs) else (splitFirst? sep cs).map fun p => (c :: p.1, p.2)

def splitLast? (sep : Char) : List Char → Option (List Char × List Char)
  | [] => none
  | c :: cs =>
    match splitLast? sep cs with
    | some p => some (c :: p.1, p.2)
    | none => if c == sep then some ([], cs) else none

theorem splitFirstWhole {sep : Char} {cs : List Char} {p : List Char × List Char}
    (h : splitFirst? sep cs = some p) : cs = p.1 ++ sep :: p.2 := by
  fun_induction splitFirst? sep cs generalizing p with
  | case1 => simp at h
  | case2 c cs found => cases h; simp_all
  | case3 c cs _ ih =>
    obtain ⟨q, hq, rfl⟩ := Option.map_eq_some_iff.1 h
    simp [← ih hq]

theorem splitLastWhole {sep : Char} {cs : List Char} {p : List Char × List Char}
    (h : splitLast? sep cs = some p) : cs = p.1 ++ sep :: p.2 := by
  fun_induction splitLast? sep cs generalizing p with
  | case1 => simp at h
  | case2 c cs q hq ih => cases h; simp [← ih hq]
  | case3 c cs _ found => cases h; simp_all
  | case4 => simp at h

def splitOn (sep : Char) : List Char → List (List Char)
  | [] => [[]]
  | c :: cs =>
    if c == sep then [] :: splitOn sep cs
    else match splitOn sep cs with
      | [] => [[c]]
      | piece :: rest => (c :: piece) :: rest

end SheetLint.Text
