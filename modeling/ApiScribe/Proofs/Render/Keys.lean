import ApiScribe.Model.Text
import ApiScribe.Proofs.Endpoint.Slots
import ApiScribe.Proofs.Endpoint.Url
import ApiScribe.Proofs.Schema.Shape
import ApiScribe.Proofs.TypeExpr.Printing

/-! Names as keys. A name is printed as the key of a member, as the key of a pair and behind an
object, bare or between quotes; what is printed is read back as the name if the name is a bare one
that is an identifier, or stands between quotes. -/
namespace ApiScribe

namespace Json

/-- Whether a character cannot follow a key. -/
def isNoMark (c : Char) : Bool := c ≠ '?' ∧ c ≠ ':'

/-- Characters between quotes, and the text they spell: each of its characters stands for itself, or
is escaped without marks. -/
inductive Spells : List Char → List Char → Prop
  | nil : Spells [] []
  | raw {cs s : List Char} (c : Char) (h : Spells cs s) : Spells (c :: cs) (c :: s)
  | escape {cs s : List Char} (c : Char) {escape : List Char} (hne : escape ≠ [])
      (hescape : ∀ d ∈ escape, isNoMark d = true) (h : Spells cs s) : Spells (escape ++ cs) (c :: s)

theorem isNoMark_of_hexValue? {c : Char} {n : Nat} (h : hexValue? c = some n) :
    isNoMark c = true := by
  have hquestion : hexValue? '?' = none := by decide
  have hcolon : hexValue? ':' = none := by decide
  refine decide_eq_true ⟨?_, ?_⟩ <;> rintro rfl <;> simp_all

theorem isNoMark_of_unit? {a b c d : Char} {n : Nat} (h : unit? a b c d = some n) :
    ∀ x ∈ [a, b, c, d], isNoMark x = true := by
  simp only [unit?, Option.bind_eq_bind, Option.bind_eq_some_iff] at h
  obtain ⟨_, ha, _, hb, _, hc, _, hd, -⟩ := h
  simp [isNoMark_of_hexValue? ha, isNoMark_of_hexValue? hb, isNoMark_of_hexValue? hc,
    isNoMark_of_hexValue? hd]

theorem isNoMark_of_unescape? {c x : Char} (h : unescape? c = some x) : isNoMark c = true := by
  refine decide_eq_true ⟨?_, ?_⟩ <;> rintro rfl <;> cases h

section

variable {p rest s : List Char} {c : Char} {x : Step (List Char)}
  (ih : ∀ {t : List Char}, x = .ok (t, rest) → ∃ cs, p = cs ++ '"' :: rest ∧ Spells cs t)
  (h : prepend c x = .ok (s, rest))
include ih h

theorem exists_spells_raw : ∃ cs, c :: p = cs ++ '"' :: rest ∧ Spells cs s := by
  obtain ⟨t, ht, rfl⟩ := prepend_eq_ok h
  obtain ⟨cs, rfl, hcs⟩ := ih ht
  exact ⟨c :: cs, rfl, .raw c hcs⟩

theorem exists_spells_escape (escape : List Char) (hne : escape ≠ [])
    (hescape : ∀ d ∈ escape, isNoMark d = true) :
    ∃ cs, escape ++ p = cs ++ '"' :: rest ∧ Spells cs s := by
  obtain ⟨t, ht, rfl⟩ := prepend_eq_ok h
  obtain ⟨cs, rfl, hcs⟩ := ih ht
  exact ⟨escape ++ cs, (List.append_assoc _ _ _).symm, .escape c hne hescape hcs⟩

end

theorem isNoMark_unit {a b c d : Char} {n : Nat} (h : unit? a b c d = some n) :
    ∀ x ∈ ['\\', 'u', a, b, c, d], isNoMark x = true :=
  List.forall_mem_cons.2 ⟨by decide, List.forall_mem_cons.2 ⟨by decide, isNoMark_of_unit? h⟩⟩

/-- A string is spelled in front of its closing quote. -/
theorem spells_of_stringChars {opening p s rest : List Char}
    (h : stringChars opening p = .ok (s, rest)) : ∃ cs, p = cs ++ '"' :: rest ∧ Spells cs s := by
  fun_induction stringChars opening p generalizing s with
  | case2 rest' =>
    cases h
    exact ⟨[], rfl, .nil⟩
  | case6 a b c d a' b' c' d' _ _ _ hhigh _ _ hlow _ ih =>
    exact exists_spells_escape ih h (['\\', 'u', a, b, c, d] ++ ['\\', 'u', a', b', c', d'])
      (by simp) (List.forall_mem_append.2 ⟨isNoMark_unit hhigh, isNoMark_unit hlow⟩)
  | case7 a b c d _ _ _ _ _ _ _ hunit _ _ _ _ ih =>
    exact exists_spells_escape ih h ['\\', 'u', a, b, c, d] (by simp) (isNoMark_unit hunit)
  | case8 a b c d _ _ _ _ _ _ _ hunit _ ih =>
    exact exists_spells_escape ih h ['\\', 'u', a, b, c, d] (by simp) (isNoMark_unit hunit)
  | case10 a b c d _ _ _ _ hunit ih =>
    exact exists_spells_escape ih h ['\\', 'u', a, b, c, d] (by simp) (isNoMark_unit hunit)
  | case12 c _ _ _ _ _ hshort ih =>
    refine exists_spells_escape ih h ['\\', c] (by simp) ?_
    exact List.forall_mem_cons.2 ⟨by decide, List.forall_mem_singleton.2
      (isNoMark_of_unescape? hshort)⟩
  | case15 =>
    rename_i ih
    exact exists_spells_raw ih h
  | _ => cases h

theorem Spells.length_le {cs s : List Char} (h : Spells cs s) : s.length ≤ cs.length := by
  induction h with
  | nil => exact Nat.le_refl _
  | raw c _ ih => simpa using ih
  | escape c hne _ _ ih =>
    have := List.length_pos_iff.2 hne
    simp only [List.length_cons, List.length_append]
    omega

/-- The first mark of a text is not later than that of the characters that spell it. -/
theorem Spells.length_takeWhile_le {cs s : List Char} (h : Spells cs s)
    (hmark : ∃ c ∈ cs, isNoMark c = false) :
    (s.takeWhile isNoMark).length ≤ (cs.takeWhile isNoMark).length := by
  induction h with
  | nil => exact Nat.le_refl _
  | @raw cs s c _ ih =>
    cases hc : isNoMark c with
    | false => simp [hc]
    | true =>
      have hrest : ∃ d ∈ cs, isNoMark d = false := by simpa [hc] using hmark
      simpa [hc] using ih hrest
  | @escape cs s c escape hne hescape _ ih =>
    have hrest : ∃ d ∈ cs, isNoMark d = false := by
      obtain ⟨d, hd, hdmark⟩ := hmark
      rcases List.mem_append.1 hd with hd | hd
      · rw [hescape d hd] at hdmark
        cases hdmark
      · exact ⟨d, hd, hdmark⟩
    have hlength := ih hrest
    have hpos := List.length_pos_iff.2 hne
    rw [List.takeWhile_append_of_pos hescape, List.length_append]
    cases hc : isNoMark c with
    | false => simp [hc]
    | true =>
      simp only [List.takeWhile_cons, hc, if_true, List.length_cons]
      omega

theorem length_takeWhile_append_cons {α : Type} {p : α → Bool} (xs : List α) {x : α}
    (hx : p x = false) (ys : List α) :
    ((xs ++ x :: ys).takeWhile p).length = (xs.takeWhile p).length := by
  rw [List.takeWhile_append]
  split
  · next h => simp [hx, h]
  · rfl

/-- No text that has something in front of its spelling is spelled up to a mark behind it. -/
theorem Spells.ne_append {cs front back rest tail : List Char} {mark : Char}
    (hne : front ≠ []) (hfront : ∀ c ∈ front, isNoMark c = true) (hmark : isNoMark mark = false)
    (hcs : cs ++ '"' :: rest = back ++ mark :: tail) : ¬ Spells cs (front ++ back) := by
  intro h
  have hpos := List.length_pos_iff.2 hne
  have hlength := h.length_le
  rw [List.length_append] at hlength
  rcases List.append_eq_append_iff.1 hcs with ⟨more, rfl, -⟩ | ⟨more, rfl, hmore⟩
  · rw [List.length_append] at hlength
    omega
  · cases more with
    | nil =>
      rw [List.append_nil] at hlength
      omega
    | cons c more =>
      obtain ⟨rfl, -⟩ := List.cons.inj hmore
      have hfirst := h.length_takeWhile_le ⟨mark, by simp, hmark⟩
      rw [length_takeWhile_append_cons _ hmark, List.takeWhile_append_of_pos hfront,
        List.length_append] at hfirst
      omega

end Json

/-- What a character beyond ASCII is in code. -/
inductive CharKind
  | start
  | inner
  | blank
  | other
  deriving DecidableEq

/-- The characters of code, given what those beyond ASCII are. -/
structure Alphabet where
  kind : Char → CharKind

namespace Alphabet

variable (a : Alphabet)

/-- A character that starts an identifier. -/
def isStart (c : Char) : Bool :=
  if c.toNat < 128 then c.isAlpha || c == '_' || c == '$' else a.kind c = .start

/-- A character inside an identifier. -/
def isInner (c : Char) : Bool :=
  if c.toNat < 128 then c.isAlphanum || c == '_' || c == '$'
  else a.kind c = .start || a.kind c = .inner

/-- A character between words. -/
def isBlank (c : Char) : Bool :=
  if c.toNat < 128 then [' ', '\t', '\n', '\x0b', '\x0c', '\r'].contains c else a.kind c = .blank

/-- Whether a text is an identifier. -/
def isIdentifier (s : String) : Bool := s.toList.head?.any a.isStart && s.toList.all a.isInner

/-- Without the blanks at the start. -/
def skip (cs : List Char) : List Char := cs.dropWhile a.isBlank

/-- The identifier at the start, which stands for itself, and what follows it. -/
def identifier? (cs : List Char) : Option (String × List Char) :=
  if cs.head?.any a.isStart then
    some (String.ofList (cs.takeWhile a.isInner), cs.dropWhile a.isInner)
  else none

/-- What the quoted text at the start stands for, and what follows it. -/
def literal? (cs : List Char) : Option (String × List Char) :=
  match cs with
  | '"' :: cs => match Json.stringChars cs cs with
    | .ok (s, rest) => some (String.ofList s, rest)
    | .error _ => none
  | _ => none

/-- Whether a colon follows, perhaps behind a question mark. -/
def endsKey (cs : List Char) : Bool :=
  match a.skip cs with
  | ':' :: _ => true
  | '?' :: cs => (a.skip cs).head? = some ':'
  | _ => false

/-- The property that a member declares, or a pair sets. -/
def member? (text : String) : Option String :=
  match (literal? (a.skip text.toList)).or (a.identifier? (a.skip text.toList)) with
  | some (name, rest) => if a.endsKey rest then some name else none
  | none => none

/-- The property that an identifier behind a point reads. -/
def point? (cs : List Char) : Option String :=
  match a.identifier? (a.skip cs) with
  | some (name, rest) => if a.skip rest = [] then some name else none
  | none => none

/-- The property that a quoted text in brackets reads, from the opening bracket on. -/
def bracket? (cs : List Char) : Option String :=
  match literal? (a.skip cs) with
  | some (name, rest) => if a.skip rest = [']'] then some name else none
  | none => none

/-- The property that is read by what follows an object. -/
def access? : List Char → Option String
  | '.' :: cs => a.point? cs
  | '[' :: cs => a.bracket? cs
  | '?' :: '.' :: '[' :: cs => a.bracket? cs
  | '?' :: '.' :: cs => a.point? cs
  | _ => none

/-- The property of the input that an expression reads. -/
def input? (text : String) : Option String :=
  (Text.after? "input".toList text.toList).bind a.access?

theorem isInner_of_isStart {c : Char} (h : a.isStart c = true) : a.isInner c = true := by
  unfold isStart at h
  unfold isInner
  split
  · next hc =>
    rw [if_pos hc] at h
    exact TypeExpr.isNameChar_of_isNameStart h
  · next hc =>
    rw [if_neg hc] at h
    simp_all

theorem isBlank_of_isInner {c : Char} (h : a.isInner c = true) : a.isBlank c = false := by
  unfold isInner at h
  unfold isBlank
  split
  · next hc =>
    rw [if_pos hc] at h
    by_contra hblank
    simp only [Bool.not_eq_false, List.contains_iff_mem, List.mem_cons, List.not_mem_nil,
      or_false] at hblank
    rcases hblank with rfl | rfl | rfl | rfl | rfl | rfl <;> exact absurd h (by decide)
  · next hc =>
    rw [if_neg hc] at h
    by_contra hblank
    simp_all

theorem isNoMark_of_isBlank {c : Char} (h : a.isBlank c = true) : Json.isNoMark c = true := by
  refine decide_eq_true ⟨?_, ?_⟩ <;> rintro rfl <;> exact absurd h (by simp [isBlank])

/-- A mark is no part of an identifier and no blank. -/
theorem isInner_of_mark {c : Char} (h : Json.isNoMark c = false) : a.isInner c = false := by
  have hc : c = '?' ∨ c = ':' := by
    simp only [Json.isNoMark, decide_eq_false_iff_not] at h
    tauto
  rcases hc with rfl | rfl <;> simp [isInner]

theorem isBlank_of_mark {c : Char} (h : Json.isNoMark c = false) : a.isBlank c = false := by
  by_contra hblank
  rw [a.isNoMark_of_isBlank (Bool.not_eq_false _ ▸ hblank)] at h
  cases h

theorem skip_append {front : List Char} (h : ∀ c ∈ front, a.isBlank c = true) (cs : List Char) :
    a.skip (front ++ cs) = a.skip cs :=
  List.dropWhile_append_of_pos h

theorem skip_cons {c : Char} (h : a.isBlank c = false) (cs : List Char) :
    a.skip (c :: cs) = c :: cs := by
  simp [skip, h]

theorem skip_of_isStart {cs : List Char} (h : cs.head?.any a.isStart = true) :
    a.skip cs = cs := by
  cases cs with
  | nil => cases h
  | cons c cs => exact a.skip_cons (a.isBlank_of_isInner (a.isInner_of_isStart h)) cs

theorem literal?_of_isStart {cs : List Char} (h : cs.head?.any a.isStart = true) :
    literal? cs = none := by
  unfold literal?
  split
  · exact absurd h (by simp [isStart])
  · rfl

theorem toList_quoted_append (s : String) (rest : List Char) : (Json.quoted s).toList ++ rest =
    '"' :: (s.toList.flatMap (Json.quotedChar true) ++ '"' :: rest) := by
  simp [Json.quoted, Json.quotedChars]

theorem literal?_quoted (s : String) (rest : List Char) :
    literal? ((Json.quoted s).toList ++ rest) = some (s, rest) := by
  rw [toList_quoted_append, literal?, Json.stringChars_quoted]
  simp

theorem skip_quoted (s : String) (rest : List Char) :
    a.skip ((Json.quoted s).toList ++ rest) = (Json.quoted s).toList ++ rest := by
  rw [toList_quoted_append]
  exact a.skip_cons (by simp [isBlank]) _

theorem head?_append_any {p : Char → Bool} {cs : List Char} (h : cs.head?.any p = true)
    (ds : List Char) : (cs ++ ds).head?.any p = true := by
  cases cs with
  | nil => cases h
  | cons c cs => exact h

/-- An identifier is read in front of anything that does not go on with it. -/
theorem identifier?_append {s : String} (h : a.isIdentifier s = true) (rest : List Char)
    (hrest : ∀ c ∈ rest.head?, a.isInner c = false) :
    a.identifier? (s.toList ++ rest) = some (s, rest) := by
  rw [isIdentifier, Bool.and_eq_true, List.all_eq_true] at h
  obtain ⟨hstart, hinner⟩ := h
  have hhead := head?_append_any hstart rest
  have htake : rest.takeWhile a.isInner = [] := by
    cases rest with
    | nil => rfl
    | cons c rest => simp [hrest c rfl]
  have hdrop : rest.dropWhile a.isInner = rest := by
    cases rest with
    | nil => rfl
    | cons c rest => simp [hrest c rfl]
  rw [identifier?, if_pos hhead, List.takeWhile_append_of_pos hinner,
    List.dropWhile_append_of_pos hinner, htake, hdrop, List.append_nil, String.ofList_toList]

/-- What is read as an identifier is one. -/
theorem isIdentifier_of_identifier? {cs rest : List Char} {s : String}
    (h : a.identifier? cs = some (s, rest)) : a.isIdentifier s = true := by
  unfold identifier? at h
  split at h
  · next hstart =>
    cases h
    cases cs with
    | nil => cases hstart
    | cons c cs =>
      have hc : a.isStart c = true := hstart
      rw [isIdentifier, String.toList_ofList]
      simp [a.isInner_of_isStart hc, hc, List.all_takeWhile]
  · cases h

/-- A name that starts with a quote, perhaps behind blanks, is never read from itself: what stands
between quotes is shorter than the name, unless the marks behind it are part of it. -/
theorem literal?_ne_self {mark : Char} (hmark : Json.isNoMark mark = false) {s : String}
    (tail : List Char) {rest : List Char} :
    literal? (a.skip (s.toList ++ mark :: tail)) ≠ some (s, rest) := by
  intro h
  unfold literal? at h
  split at h
  · next cs hcs =>
    split at h
    · next chars _ hchars =>
      obtain ⟨rfl, rfl⟩ := Prod.mk.inj (Option.some.inj h)
      obtain ⟨ds, rfl, hspells⟩ := Json.spells_of_stringChars hchars
      have hblanks : ∀ c ∈ (((String.ofList chars).toList ++ mark :: tail).takeWhile a.isBlank),
          a.isBlank c = true := fun c hc => List.mem_takeWhile_imp hc
      have hsplit := List.takeWhile_append_dropWhile (p := a.isBlank)
        (l := (String.ofList chars).toList ++ mark :: tail)
      rw [show List.dropWhile a.isBlank _ = _ from hcs] at hsplit
      generalize ((String.ofList chars).toList ++ mark :: tail).takeWhile a.isBlank = blanks
        at hblanks hsplit
      rw [String.toList_ofList] at hsplit
      have hquote : mark ≠ '"' := by
        rintro rfl
        cases hmark
      rcases List.append_eq_append_iff.1 hsplit with ⟨back, hname, hrest⟩ | ⟨more, hmore, hrest⟩
      · cases back with
        | nil => exact hquote (List.cons.inj hrest).1.symm
        | cons c back =>
          obtain ⟨rfl, hback⟩ := List.cons.inj hrest
          have hfront : ∀ c ∈ blanks ++ ['"'], Json.isNoMark c = true :=
            List.forall_mem_append.2 ⟨fun c hc => a.isNoMark_of_isBlank (hblanks c hc),
              List.forall_mem_singleton.2 (by decide)⟩
          rw [hname, List.append_cons] at hspells
          exact Json.Spells.ne_append (by simp) hfront hmark hback hspells
      · cases more with
        | nil => exact hquote (List.cons.inj hrest).1
        | cons c more =>
          have hblank := hblanks mark (by simp [hmore, (List.cons.inj hrest).1])
          rw [a.isBlank_of_mark hmark] at hblank
          cases hblank
    · cases h
  · cases h

/-- A name that is printed bare as a key is read back if and only if it is an identifier. -/
theorem member?_bare_iff (front : List Char) {tail : List Char} {mark : Char} {s text : String}
    (htext : text.toList = front ++ s.toList ++ mark :: tail)
    (hfront : ∀ c ∈ front, a.isBlank c = true) (hmark : Json.isNoMark mark = false)
    (hends : a.endsKey (mark :: tail) = true) :
    a.member? text = some s ↔ a.isIdentifier s = true := by
  have hskip : a.skip text.toList = a.skip (s.toList ++ mark :: tail) := by
    rw [htext, List.append_assoc, a.skip_append hfront]
  constructor
  · intro h
    unfold member? at h
    split at h
    · next name rest hname =>
      split at h
      · cases h
        rcases Option.or_eq_some_iff.1 hname with hliteral | ⟨-, hname⟩
        · rw [hskip] at hliteral
          exact absurd hliteral (a.literal?_ne_self hmark tail)
        · exact a.isIdentifier_of_identifier? hname
      · cases h
    · cases h
  · intro h
    have hrest : ∀ c ∈ (mark :: tail).head?, a.isInner c = false := by
      rintro c ⟨⟩
      exact a.isInner_of_mark hmark
    have hhead : (s.toList ++ mark :: tail).head?.any a.isStart = true := by
      rw [isIdentifier, Bool.and_eq_true] at h
      exact head?_append_any h.1 _
    rw [member?, hskip, a.skip_of_isStart hhead, a.literal?_of_isStart hhead,
      a.identifier?_append h _ hrest]
    simp [hends]

/-- A name that is printed between quotes as a key is read back. -/
theorem member?_quoted {front tail : List Char} {s text : String}
    (htext : text.toList = front ++ (Json.quoted s).toList ++ tail)
    (hfront : ∀ c ∈ front, a.isBlank c = true) (hends : a.endsKey tail = true) :
    a.member? text = some s := by
  have hskip : a.skip text.toList = (Json.quoted s).toList ++ tail := by
    rw [htext, List.append_assoc, a.skip_append hfront, a.skip_quoted]
  rw [member?, hskip, literal?_quoted]
  simp [hends]

/-- A name that is read as an identifier behind a point is read back if and only if it is one. -/
theorem point?_iff {s : String} : a.point? s.toList = some s ↔ a.isIdentifier s = true := by
  constructor
  · intro h
    unfold point? at h
    split at h
    · next name rest hname =>
      split at h
      · cases h
        exact a.isIdentifier_of_identifier? hname
      · cases h
    · cases h
  · intro h
    have hstart := h
    rw [isIdentifier, Bool.and_eq_true] at hstart
    have hidentifier := a.identifier?_append h [] (by simp)
    rw [List.append_nil] at hidentifier
    rw [point?, a.skip_of_isStart hstart.1, hidentifier]
    rfl

theorem bracket?_quoted (s : String) :
    a.bracket? ((Json.quoted s).toList ++ [']']) = some s := by
  have hend : a.skip [']'] = [']'] := a.skip_cons (by simp [isBlank]) []
  rw [bracket?, a.skip_quoted, literal?_quoted]
  simp [hend]

/-- Whether a text ends in a line feed. -/
def endsLine (s : String) : Bool := s.toList.getLast? = some '\n'

theorem isIdentifier_of_isPropertyName {s : String}
    (h : Endpoint.isPropertyName s.toList = true) : a.isIdentifier s = true := by
  have hascii : ∀ c, TypeExpr.isNameChar c = true → c.toNat < 128 := by
    intro c hc
    simp only [TypeExpr.isNameChar, Bool.or_eq_true, beq_iff_eq] at hc
    rcases hc with (hc | rfl) | rfl
    · have := (Naming.isAlphanum_iff c).1 hc
      omega
    · decide
    · decide
  rw [isIdentifier]
  cases hs : s.toList with
  | nil =>
    rw [hs] at h
    cases h
  | cons c cs =>
    rw [hs, Endpoint.isPropertyName, Bool.and_eq_true, List.all_eq_true] at h
    obtain ⟨hstart, hinner⟩ := h
    have hc : a.isStart c = true := by
      rwa [isStart, if_pos (hascii c (TypeExpr.isNameChar_of_isNameStart hstart))]
    have hcs : ∀ d ∈ cs, a.isInner d = true := by
      intro d hd
      rw [isInner, if_pos (hascii d (hinner d hd))]
      exact hinner d hd
    rw [List.head?_cons, Option.any_some, hc, Bool.true_and, List.all_eq_true]
    exact List.forall_mem_cons.2 ⟨a.isInner_of_isStart hc, hcs⟩

theorem not_isIdentifier_of_endsLine {s : String} (h : endsLine s = true) :
    a.isIdentifier s = false := by
  have hmem : '\n' ∈ s.toList := List.mem_of_getLast? (of_decide_eq_true h)
  rw [isIdentifier, Bool.and_eq_false_iff, List.all_eq_false]
  exact .inr ⟨'\n', hmem, by simp [isInner]⟩

/-- A name that is printed bare for what stands in front of a line feed is an identifier if and
only if there is no line feed. -/
theorem isIdentifier_iff_not_endsLine {s : String}
    (h : s.toList.getLast? ≠ some '\n' → Endpoint.isPropertyName s.toList = true) :
    a.isIdentifier s = true ↔ endsLine s = false := by
  constructor
  · intro hs
    by_contra hline
    rw [a.not_isIdentifier_of_endsLine (Bool.not_eq_false _ ▸ hline)] at hs
    cases hs
  · intro hline
    exact a.isIdentifier_of_isPropertyName (h (of_decide_eq_false hline))

theorem exists_mark {mark : String} (hmark : mark ∈ ["", "?"]) (type : String) :
    ∃ c tail, (mark ++ ": " ++ type).toList = c :: tail ∧ Json.isNoMark c = false ∧
      a.endsKey (c :: tail) = true := by
  have hcolon (cs : List Char) : a.skip (':' :: cs) = ':' :: cs := a.skip_cons (by simp [isBlank]) cs
  have hquestion (cs : List Char) : a.skip ('?' :: cs) = '?' :: cs :=
    a.skip_cons (by simp [isBlank]) cs
  simp only [List.mem_cons, List.not_mem_nil, or_false] at hmark
  rcases hmark with rfl | rfl
  · refine ⟨':', ' ' :: type.toList, by simp, by decide, ?_⟩
    simp [endsKey, hcolon]
  · refine ⟨'?', ':' :: ' ' :: type.toList, by simp, by decide, ?_⟩
    simp [endsKey, hquestion, hcolon]

/-- A key that is a name, bare or between quotes, is read back unless it is bare with a line feed
at its end. -/
theorem member?_key_iff (front : List Char) {bare : Bool} {s text mark : String} (type : String)
    (hbare : bare = true → (a.isIdentifier s = true ↔ endsLine s = false))
    (hfront : ∀ c ∈ front, a.isBlank c = true) (hmark : mark ∈ ["", "?"])
    (htext : text.toList = front ++ (if bare then s else Json.quoted s).toList ++
      (mark ++ ": " ++ type).toList) :
    a.member? text = some s ↔ ¬ (bare = true ∧ endsLine s = true) := by
  obtain ⟨c, tail, htail, hc, hends⟩ := a.exists_mark hmark type
  rw [htail] at htext
  cases bare with
  | false => simp [a.member?_quoted htext hfront hends]
  | true =>
    rw [if_pos rfl] at htext
    rw [a.member?_bare_iff front htext hfront hc hends, hbare rfl]
    simp

end Alphabet

namespace Endpoint

variable (a : Alphabet)

/-- A member of the shape is read back as the name of its slot, unless the name is bare with a line
feed at its end. -/
theorem member?_memberKey_iff {f member : String} (h : HasKey (memberKey f) member) :
    a.member? member = some f ↔ ¬ (isMemberKey f = true ∧ Alphabet.endsLine f = true) := by
  obtain ⟨mark, hmark, type, rfl⟩ := h
  refine a.member?_key_iff [] type (fun hkey => ?_) (by simp) hmark ?_
  · exact a.isIdentifier_iff_not_endsLine fun hline => isPropertyName_of_isMemberKey hline hkey
  · rw [memberKey]
    simp

theorem isIdentifier_iff_of_isIdentifier {f : String} (h : TypeText.isIdentifier f = true) :
    a.isIdentifier f = true ↔ Alphabet.endsLine f = false :=
  a.isIdentifier_iff_not_endsLine fun hline => isPropertyName_of_isIdentifier hline h

/-- A pair of the query object is read back as the name of its field, under the same condition. -/
theorem member?_pair_iff (f type : String) : a.member? (objectKey f ++ ": " ++ type) = some f ↔
    ¬ (TypeText.isIdentifier f = true ∧ Alphabet.endsLine f = true) := by
  have hmark : "" ∈ ["", "?"] := List.mem_cons_self
  refine a.member?_key_iff [] type (isIdentifier_iff_of_isIdentifier a) (by simp) hmark ?_
  rw [objectKey]
  simp

/-- The line of a property is read back as its name, under the same condition. -/
theorem member?_propertyLine_iff {mark : String} (hmark : mark ∈ ["", "?"]) (f type : String) :
    a.member? ("  " ++ objectKey f ++ mark ++ ": " ++ type) = some f ↔
      ¬ (TypeText.isIdentifier f = true ∧ Alphabet.endsLine f = true) := by
  refine a.member?_key_iff [' ', ' '] type (isIdentifier_iff_of_isIdentifier a)
    (by simp [Alphabet.isBlank]) hmark ?_
  rw [objectKey]
  simp

/-- The expression for one of several slots reads the property of its name, under the same
condition. -/
theorem input?_accessor_iff {e : Endpoint} (hslots : 2 ≤ e.inputSlots) (f : String)
    (guarded : Bool) : a.input? (e.accessor f guarded) = some f ↔
      ¬ (TypeText.isIdentifier f = true ∧ Alphabet.endsLine f = true) := by
  have hinput (rest : String) : a.input? ("input" ++ rest) = a.access? rest.toList := by
    rw [Alphabet.input?, String.toList_append, Text.after?_eq_some_iff.2 rfl, Option.bind_some]
  rw [accessor, if_neg (by omega)]
  split
  · next hname =>
    have haccess : a.access? ((if guarded then "?." else ".") ++ f).toList = a.point? f.toList := by
      have hbracket := not_mem_of_isIdentifier hname (by decide : TypeText.isNameChar '[' = false)
        (by decide)
      rw [String.toList_append]
      cases guarded
      · rfl
      · show a.access? ('?' :: '.' :: f.toList) = _
        unfold Alphabet.access?
        split <;> simp_all
    rw [String.append_assoc, hinput, haccess, a.point?_iff, isIdentifier_iff_of_isIdentifier a hname]
    simp [hname]
  · next hname =>
    have haccess : a.access? ((if guarded then "?.[" else "[") ++ (Json.quoted f ++ "]")).toList =
        some f := by
      have hopen (cs : List Char) :
          a.access? ((if guarded then "?.[" else "[").toList ++ cs) = a.bracket? cs := by
        cases guarded <;> rfl
      rw [String.toList_append, hopen, String.toList_append]
      exact a.bracket?_quoted f
    rw [String.append_assoc, String.append_assoc, hinput, haccess]
    simp [hname]

end Endpoint

/-- A field of an object type is read back if and only if its name is an identifier. -/
theorem Schema.member?_fieldText_iff (a : Alphabet) (key : TypeKey) (type : String) :
    a.member? (Shape.fieldText key type) = some key.name ↔ a.isIdentifier key.name = true := by
  have hmark : (if key.optional then "?" else "") ∈ ["", "?"] := by
    cases key.optional <;> simp
  obtain ⟨c, tail, htail, hc, hends⟩ := a.exists_mark hmark type
  refine a.member?_bare_iff [] ?_ (by simp) hc hends
  rw [← htail, Shape.fieldText]
  cases key.optional <;> simp

namespace Alphabet

open Endpoint

/-- What is read back of the names that are printed as keys. Most places print a name bare if it is
an identifier, with or without a line feed at its end, and between quotes if not; an object type
prints every name bare. -/
structure ReadsKeys (a : Alphabet) : Prop where
  shape : ∀ document api, ofDocument document = .ok api → ∀ e ∈ api.endpoints, 2 ≤ e.inputSlots →
    ∃ members, e.inputShape = some (Schema.objectText members) ∧
      List.Forall₂ (fun f member => a.member? member = some f ↔
        ¬ (isMemberKey f = true ∧ endsLine f = true)) e.slotNames members
  query : ∀ (e : Endpoint) guarded text, e.query? guarded = some text →
    ∃ pairs, text = "\x7b " ++ ", ".intercalate pairs ++ " \x7d" ∧
      List.Forall₂ (fun f pair => a.member? pair = some f ↔
        ¬ (TypeText.isIdentifier f = true ∧ endsLine f = true)) e.queryFields pairs
  access : ∀ e : Endpoint, 2 ≤ e.inputSlots → ∀ f guarded,
    (a.input? (e.accessor f guarded) = some f ↔
      ¬ (TypeText.isIdentifier f = true ∧ endsLine f = true))
  inline : ∀ v fields text, Schema.shape v = .ok (.object fields) → Schema.typeText v = .ok text →
    ∃ members, text = Schema.objectText members ∧
      List.Forall₂ (fun field member => a.member? member = some field.1.name ↔
        a.isIdentifier field.1.name = true) fields members
  property : ∀ style current (p : ModelProperty), ∃ comment line,
    Model.propertyLines style current p = comment ++ [line] ∧
      (a.member? line = some p.name ↔
        ¬ (TypeText.isIdentifier p.name = true ∧ endsLine p.name = true))

/-- **Keys that are read back.** Of the five places that print names as keys or behind an object,
the object types of schemas read back the names that are identifiers, and the others all names but
those that are printed bare with a line feed at their end. -/
theorem readsKeys (a : Alphabet) : a.ReadsKeys where
  shape := by
    intro document api h e he hslots
    obtain ⟨d, name, path, method, item, operation, rfl, hbuild⟩ := exists_build_of_mem h he
    obtain ⟨ofPath, ofOperation, ps, bodyType, -, hinputs⟩ := hasInputs_of_build hbuild
    obtain ⟨shape, hsome, hshape⟩ := hinputs.shape hslots
    obtain ⟨-, -, members, rfl, hmembers⟩ := members_of_inputShapeText hinputs hshape
    refine ⟨members, hsome, (List.forall₂_map_left_iff.1 hmembers).imp fun f member hmember => ?_⟩
    exact member?_memberKey_iff a hmember
  query := by
    intro e guarded text h
    unfold query? at h
    split at h
    · cases h
    · cases h
      refine ⟨_, rfl, List.forall₂_map_right_iff.2 (List.forall₂_same.2 fun f _ => ?_)⟩
      exact member?_pair_iff a f _
  access := fun e hslots f guarded => input?_accessor_iff a hslots f guarded
  inline := by
    intro v fields text hshape h
    rw [Schema.typeText_eq, hshape] at h
    obtain ⟨members, hmembers, rfl⟩ := Outcome.map_eq_ok.1 h
    refine ⟨members, rfl, (Outcome.mapM_eq_ok.1 hmembers).imp fun field member hmember => ?_⟩
    obtain ⟨type, -, rfl⟩ := Outcome.map_eq_ok.1 hmember
    exact Schema.member?_fieldText_iff a field.1 type
  property := by
    intro style current p
    have hmark : (if p.required then "" else "?") ∈ ["", "?"] := by
      cases p.required <;> simp
    refine ⟨_, _, rfl, ?_⟩
    rw [String.append_assoc]
    exact member?_propertyLine_iff a hmark p.name _

/-- An object type with a field that is no identifier. -/
def pageSchema : Value :=
  .record [("type", .str "object"),
    ("properties", .record [("page-size", .record [("type", .str "integer")])])]

/-- The field is printed bare, and not read back. -/
theorem member?_pageSchema : Schema.typeText pageSchema = .ok "\x7b page-size?: number \x7d" ∧
    ∀ a : Alphabet, a.member? "page-size?: number" ≠ some "page-size" := by
  refine ⟨by decide +kernel, fun a h => ?_⟩
  have hidentifier := (Schema.member?_fieldText_iff a ⟨"page-size", true⟩ "number").1 h
  rw [isIdentifier, Bool.and_eq_true, List.all_eq_true] at hidentifier
  exact absurd (hidentifier.2 '-' (by decide)) (by simp [isInner])

end Alphabet
end ApiScribe
