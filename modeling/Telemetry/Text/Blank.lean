/-!
Blank characters and trimming. A blank is any character with the property White_Space of Unicode,
which has 25 members; `trim` removes blanks from both ends and nothing else.
-/
namespace Telemetry.Text

/-- The characters with the property White_Space. -/
def isBlank (c : Char) : Bool :=
  let n := c.toNat
  (9 ≤ n && n ≤ 13) || n = 32 || n = 0x85 || n = 0xA0 || n = 0x1680 || (0x2000 ≤ n && n ≤ 0x200A) ||
    n = 0x2028 || n = 0x2029 || n = 0x202F || n = 0x205F || n = 0x3000

def trimEnd (cs : List Char) : List Char := (cs.reverse.dropWhile isBlank).reverse

def trim (cs : List Char) : List Char := trimEnd (cs.dropWhile isBlank)

def trimmed (s : String) : String := String.ofList (trim s.toList)

def isBlankText (s : String) : Bool := s.toList.all isBlank

theorem dropWhile_eq_nil_of_all {p : Char → Bool} {cs : List Char} (h : cs.all p) :
    cs.dropWhile p = [] := by
  induction cs with
  | nil => rfl
  | cons c cs ih =>
    simp only [List.all_cons, Bool.and_eq_true] at h
    simp [h.1, ih h.2]

theorem trim_eq_nil_of_all {cs : List Char} (h : cs.all isBlank) : trim cs = [] := by
  simp [trim, trimEnd, dropWhile_eq_nil_of_all h]

theorem dropWhile_append_of_all {p : Char → Bool} {as bs : List Char} (h : as.all p) :
    (as ++ bs).dropWhile p = bs.dropWhile p := by
  induction as with
  | nil => rfl
  | cons a as ih =>
    simp only [List.all_cons, Bool.and_eq_true] at h
    simp [h.1, ih h.2]

theorem dropWhile_eq_self {p : Char → Bool} {cs : List Char} (h : ∀ c ∈ cs.head?, p c = false) :
    cs.dropWhile p = cs := by
  cases cs with
  | nil => rfl
  | cons c cs => simp [h c (by simp)]

/-- Blanks around a text that neither starts nor ends with one are what `trim` removes. -/
theorem trim_surrounded {as cs bs : List Char} (ha : as.all isBlank) (hb : bs.all isBlank)
    (hhead : ∀ c ∈ cs.head?, isBlank c = false) (hlast : ∀ c ∈ cs.getLast?, isBlank c = false) :
    trim (as ++ cs ++ bs) = cs := by
  cases cs with
  | nil =>
    have h : ((as ++ []) ++ bs).all isBlank := by simp_all [List.all_append]
    exact trim_eq_nil_of_all h
  | cons c cs =>
    have h : ((as ++ c :: cs) ++ bs).dropWhile isBlank = c :: cs ++ bs := by
      rw [List.append_assoc, dropWhile_append_of_all ha, List.cons_append, List.dropWhile_cons,
        hhead c (by simp)]
      simp
    simp only [trim, h, trimEnd, List.reverse_append]
    rw [dropWhile_append_of_all (by simpa using hb), dropWhile_eq_self, List.reverse_reverse]
    intro d hd
    rw [List.head?_reverse] at hd
    exact hlast d hd

theorem trim_of_no_blank {cs : List Char} (h : ∀ c ∈ cs, isBlank c = false) : trim cs = cs := by
  have hhead : ∀ c ∈ cs.head?, isBlank c = false := fun c hc => h c (List.mem_of_head? hc)
  have hlast : ∀ c ∈ cs.getLast?, isBlank c = false := fun c hc => h c (List.mem_of_getLast? hc)
  simpa using @trim_surrounded [] cs [] rfl rfl hhead hlast

end Telemetry.Text
