import Telemetry.Json.Number
import Telemetry.Json.Text

/-!
The grammar of JSON. A tree is a value without the blanks between its tokens; its texts are all the ways
in which it can be laid out. Nothing here looks at how a text is read.
-/
namespace Telemetry.Json

section Numbers

def IsDigits (bs : Bytes) : Prop := bs ≠ [] ∧ ∀ b ∈ bs, Ascii.isDigit b

/-- The digits before the point: no zero stands before another digit. -/
inductive IsWhole : Bytes → Prop
  | zero : IsWhole [Ascii.zero]
  | positive {b : UInt8} {bs : Bytes} (hdigit : Ascii.isDigit b) (hpos : b ≠ Ascii.zero)
      (hbs : ∀ b ∈ bs, Ascii.isDigit b) : IsWhole (b :: bs)

inductive IsFraction : Bytes → Prop
  | none : IsFraction []
  | point {ds : Bytes} (hds : IsDigits ds) : IsFraction (Ascii.point :: ds)

inductive IsExponent : Bytes → Prop
  | none : IsExponent []
  | mark {e : UInt8} {sign ds : Bytes} (he : e = 101 ∨ e = 69)
      (hsign : sign = [] ∨ sign = [Ascii.plus] ∨ sign = [Ascii.minus]) (hds : IsDigits ds) :
      IsExponent (e :: (sign ++ ds))

inductive IsMagnitude : Bytes → Prop
  | mk {whole fraction exponent : Bytes} (hwhole : IsWhole whole) (hfraction : IsFraction fraction)
      (hexponent : IsExponent exponent) : IsMagnitude (whole ++ (fraction ++ exponent))

end Numbers

/-- A character of a string as it stands between the quotes. Control characters have to be escaped. -/
inductive IsCharacter : Bytes → Prop
  | plain {b : UInt8} (hquote : b ≠ Ascii.quote) (hbackslash : b ≠ Ascii.backslash) (hlarge : ¬ b < 32) :
      IsCharacter [b]
  | short {c : UInt8}
      (hc : c ∈ [Ascii.quote, Ascii.backslash, Ascii.slash, 98, 102, 110, 114, 116]) :
      IsCharacter [Ascii.backslash, c]
  | code {d₁ d₂ d₃ d₄ : UInt8} (hds : ∀ d ∈ [d₁, d₂, d₃, d₄], (Bytes.hexValue? d).isSome) :
      IsCharacter [Ascii.backslash, 117, d₁, d₂, d₃, d₄]

inductive IsString : Bytes → Prop
  | mk {cs : List Bytes} (hcs : ∀ c ∈ cs, IsCharacter c) :
      IsString (Ascii.quote :: (cs.flatten ++ [Ascii.quote]))

/-- The values that are a single token: strings, numbers and the three words. -/
inductive IsToken : Bytes → Prop
  | string {bs : Bytes} (h : IsString bs) : IsToken bs
  | number {bs : Bytes} (h : IsMagnitude bs) : IsToken bs
  | minus {bs : Bytes} (h : IsMagnitude bs) : IsToken (Ascii.minus :: bs)
  | true : IsToken [116, 114, 117, 101]
  | false : IsToken [102, 97, 108, 115, 101]
  | null : IsToken Json.null

def Blanks : Type := { bs : Bytes // ∀ b ∈ bs, Ascii.isBlank b }

namespace Blanks

def empty : Blanks := ⟨[], by simp⟩

@[simp] theorem val_empty : empty.1 = [] := rfl

end Blanks

structure Spaced where
  before : Blanks
  text : Bytes
  after : Blanks

namespace Spaced

def toBytes (s : Spaced) : Bytes := s.before.1 ++ (s.text ++ s.after.1)

def tight (bs : Bytes) : Spaced := ⟨.empty, bs, .empty⟩

@[simp] theorem text_tight (bs : Bytes) : (tight bs).text = bs := rfl

@[simp] theorem toBytes_tight (bs : Bytes) : (tight bs).toBytes = bs := by
  simp [toBytes, tight]

end Spaced

/-- A value without the blanks between its tokens. The keys of an object are strings as they are written,
and stand in their order, equal ones included. -/
inductive Tree where
  | token (text : Bytes)
  | array (elements : List Tree)
  | object (members : List (Bytes × Tree))

structure Element where
  tree : Tree
  layout : Spaced

structure Member where
  key : Spaced
  tree : Tree
  layout : Spaced

namespace Member

def toPair (m : Member) : Bytes × Tree := (m.key.text, m.tree)

def toBytes (m : Member) : Bytes := m.key.toBytes ++ Ascii.colon :: m.layout.toBytes

end Member

/-- The texts of a tree: blanks may stand between any two tokens. -/
inductive Tree.HasText : Tree → Bytes → Prop
  | token {bs : Bytes} (h : IsToken bs) : HasText (.token bs) bs
  | emptyArray (inside : Blanks) :
      HasText (.array []) (Ascii.bracketOpen :: (inside.1 ++ [Ascii.bracketClose]))
  | array (es : List Element) (hes : ∀ e ∈ es, HasText e.tree e.layout.text) :
      HasText (.array (es.map Element.tree)) (Json.array (es.map fun e => e.layout.toBytes))
  | emptyObject (inside : Blanks) :
      HasText (.object []) (Ascii.braceOpen :: (inside.1 ++ [Ascii.braceClose]))
  | object (ms : List Member) (hkeys : ∀ m ∈ ms, IsString m.key.text)
      (hvalues : ∀ m ∈ ms, HasText m.tree m.layout.text) :
      HasText (.object (ms.map Member.toPair))
        (Ascii.braceOpen :: commaSeparated (ms.map Member.toBytes) ++ [Ascii.braceClose])

end Telemetry.Json
