import Mathlib.Data.List.TakeWhile
import ApiScribe.Proofs.Location
import ApiScribe.Proofs.Outcome
import ApiScribe.Proofs.Text.Lines
import ApiScribe.Proofs.Text.Standing
import ApiScribe.Proofs.Value.Basic
import ApiScribe.Reference
import ApiScribe.Schema

/-! References that can be followed. A reference whose digits are plain and not too many either
leads to a value or is reported as leading nowhere; following it never fails in another way. -/
namespace ApiScribe
namespace Text

theorem mem_of_mem_splitAt {sep c : Char} {cs piece : List Char} (h : piece ∈ splitAt sep cs)
    (hc : c ∈ piece) : c ∈ cs := by
  induction cs generalizing piece with
  | nil => simp_all [splitAt]
  | cons d cs ih =>
    unfold splitAt at h
    split at h
    · rcases List.mem_cons.1 h with rfl | h
      · cases hc
      · exact List.mem_cons_of_mem d (ih h hc)
    · split at h
      · rw [List.mem_singleton.1 h] at hc
        rw [List.mem_singleton.1 hc]
        exact List.mem_cons_self
      · next first rest hsplit =>
        rcases List.mem_cons.1 h with rfl | h
        · rcases List.mem_cons.1 hc with rfl | hc
          · exact List.mem_cons_self
          · refine List.mem_cons_of_mem d (ih ?_ hc)
            rw [hsplit]
            exact List.mem_cons_self
        · refine List.mem_cons_of_mem d (ih ?_ hc)
          rw [hsplit]
          exact List.mem_cons_of_mem first h

theorem splitAt_of_not_mem {sep : Char} {cs : List Char} (h : sep ∉ cs) :
    splitAt sep cs = [cs] := by
  induction cs with
  | nil => rfl
  | cons c cs ih =>
    rw [List.mem_cons, not_or] at h
    rw [splitAt, if_neg (Ne.symm h.1), ih h.2]

theorem decimalNumber?_of_digits {cs : List Char} (h : cs.all Char.isDigit = true) :
    decimalNumber? cs = some (Nat.ofDigitChars 10 cs 0) := by
  have hfold : ∀ ds : List Char, (∀ c ∈ ds, c.isDigit = true) → ∀ n,
      ds.foldl (fun n c => do return (← n) * 10 + (← decimalValue? c)) (some n) =
        some (Nat.ofDigitChars 10 ds n) := by
    intro ds
    induction ds with
    | nil => exact fun _ n => rfl
    | cons d ds ih =>
      intro hds n
      obtain ⟨hd, hds⟩ := List.forall_mem_cons.1 hds
      have hvalue : decimalValue? d = some (d.toNat - '0'.toNat) := by
        rw [decimalValue?, if_pos hd]
        rfl
      rw [List.foldl_cons, hvalue, Nat.ofDigitChars_cons, Nat.mul_comm 10 n]
      exact ih hds _
  exact hfold cs (List.all_eq_true.1 h) 0

end Text

namespace Reference

theorem unescape_of_not_mem {segment : List Char} (h : '~' ∉ segment) :
    unescape segment = segment := by
  rw [unescape, Text.replaceAll_of_not_mem h, Text.replaceAll_of_not_mem h]

/-- A reference whose digits are ASCII digits, and that counts out items with no more of them than
can be read. -/
structure IsCountable (ref : String) : Prop where
  ascii : ∀ c ∈ ref.toList, Text.isDigitForm c = true → c.isDigit = true
  short : ∀ segments, segments? ref.toList = some segments → ∀ segment ∈ segments,
    segment.all Char.isDigit = true → segment.length ≤ mostDigits

/-- What a chain of references leads to has no references that the document lacks. -/
theorem references_of_deref {document node w : Value} (h : deref document node = .ok w)
    (hnode : node.references ⊆ document.references) : w.references ⊆ document.references := by
  have hfollow : ∀ hops v, v.references ⊆ document.references → follow document hops v = .ok w →
      w.references ⊆ document.references := by
    intro hops
    induction hops with
    | zero =>
      rintro v hv ⟨⟩
      exact hv
    | succ hops ih =>
      intro v hv hw
      rw [follow] at hw
      split at hw
      · cases hw
        exact hv
      · obtain ⟨u, hu, hw⟩ := Outcome.bind_eq_ok.1 hw
        exact ih u (fun r hr => references_of_resolve hu hr) hw
      · exact absurd hw Outcome.unexpected_ne_ok
  exact hfollow 32 node hnode h

end Reference
end ApiScribe

/-! References written from paths. A path of keys and indices becomes a reference when tildes and
slashes are escaped in its keys, and the reference leads to the part of a document that the path
leads to, whatever the keys are. -/
namespace ApiScribe

namespace Value

/-- The part of a value at one place: under a key of a map, or at an index of a list. -/
def part? (v : Value) : Place → Option Value
  | .field name => v.field? name
  | .index i =>
    match v with
    | .list items => items[i]?
    | _ => none

/-- The part that a path of places leads to, one inside the other. -/
def follow? (v : Value) (path : List Place) : Option Value := path.foldlM part? v

end Value

namespace Text

theorem decimalNumber?_toDigits (n : Nat) : decimalNumber? (Nat.toDigits 10 n) = some n := by
  have hdigits : (Nat.toDigits 10 n).all Char.isDigit = true :=
    List.all_eq_true.2 fun c hc => Nat.isDigit_of_mem_toDigits (by decide) (by decide) hc
  rw [decimalNumber?_of_digits hdigits, Nat.ofDigitChars_ten_toDigits]

/-- What is replaced piece by piece, whatever follows the piece, is replaced in all pieces. -/
theorem replaceAll_flatMap {pattern replacement : List Char} {f g : Char → List Char}
    (h : ∀ c rest, replaceAll pattern replacement (f c ++ rest) =
      g c ++ replaceAll pattern replacement rest) (cs : List Char) :
    replaceAll pattern replacement (cs.flatMap f) = cs.flatMap g := by
  induction cs with
  | nil => rfl
  | cons c cs ih => rw [List.flatMap_cons, List.flatMap_cons, h, ih]

end Text

namespace Reference

open Text

/-- A character of a key inside a reference. -/
def escapeChar (c : Char) : List Char :=
  if c = '~' then ['~', '0'] else if c = '/' then ['~', '1'] else [c]

/-- A key inside a reference: a tilde is written `~0`, and a slash `~1`. -/
def escape (key : List Char) : List Char := key.flatMap escapeChar

/-- The segment that a place is written as; indices are written in decimal. -/
def segmentOf : Place → String
  | .field name => String.ofList (escape name.toList)
  | .index i => toString i

/-- The reference that a path is written as. -/
def ofPath (path : List Place) : String := "#/" ++ "/".intercalate (path.map segmentOf)

/-- A character of a key after slashes are read and before tildes are. -/
def escapeTilde (c : Char) : List Char := if c = '~' then ['~', '0'] else [c]

theorem replaceAll_escapeChar (c : Char) (rest : List Char) :
    replaceAll ['~', '1'] ['/'] (escapeChar c ++ rest) =
      escapeTilde c ++ replaceAll ['~', '1'] ['/'] rest := by
  unfold escapeChar escapeTilde
  by_cases htilde : c = '~'
  · -- the zero keeps the tilde from being taken for the start of a slash
    have hzero : startsWith ['~', '1'] ('~' :: '0' :: rest) = false := rfl
    have hrest : replaceAll ['~', '1'] ['/'] ('0' :: rest) =
        '0' :: replaceAll ['~', '1'] ['/'] rest := replaceAll_cons rfl
    rw [if_pos htilde, if_pos htilde]
    exact (replaceAll_cons hzero).trans (congrArg ('~' :: ·) hrest)
  · rw [if_neg htilde, if_neg htilde]
    by_cases hslash : c = '/'
    · rw [if_pos hslash, hslash]
      exact replaceAll_append_self (by simp) rest
    · rw [if_neg hslash]
      exact replaceAll_append (by simpa using Ne.symm htilde) rest

theorem replaceAll_escapeTilde (c : Char) (rest : List Char) :
    replaceAll ['~', '0'] ['~'] (escapeTilde c ++ rest) =
      [c] ++ replaceAll ['~', '0'] ['~'] rest := by
  unfold escapeTilde
  by_cases htilde : c = '~'
  · rw [if_pos htilde, htilde]
    exact replaceAll_append_self (by simp) rest
  · rw [if_neg htilde]
    exact replaceAll_append (by simpa using Ne.symm htilde) rest

/-- A key is read back from its segment. Slashes are read first: a tilde that was in the key has a
zero behind it by then and is not taken for part of a slash. -/
theorem unescape_escape (key : List Char) : unescape (escape key) = key := by
  rw [unescape, escape, replaceAll_flatMap replaceAll_escapeChar,
    replaceAll_flatMap replaceAll_escapeTilde, List.flatMap_singleton']

theorem slash_not_mem_escape (key : List Char) : '/' ∉ escape key := by
  intro h
  obtain ⟨c, -, hc⟩ := List.mem_flatMap.1 h
  unfold escapeChar at hc
  split at hc
  · simp at hc
  · split at hc
    · simp at hc
    · next hslash => exact hslash (List.mem_singleton.1 hc).symm

theorem toList_segmentOf_index (i : Nat) :
    (segmentOf (.index i)).toList = Nat.toDigits 10 i := by
  rw [segmentOf, Nat.toString_eq_repr, Nat.toList_repr]

theorem not_mem_toDigits {c : Char} (h : c.isDigit = false) (i : Nat) :
    c ∉ Nat.toDigits 10 i := by
  intro hmem
  rw [Nat.isDigit_of_mem_toDigits (by decide) (by decide) hmem] at h
  cases h

theorem slash_not_mem_segmentOf (p : Place) : '/' ∉ (segmentOf p).toList := by
  cases p with
  | field name =>
    rw [segmentOf, String.toList_ofList]
    exact slash_not_mem_escape _
  | index i =>
    rw [toList_segmentOf_index]
    exact not_mem_toDigits (by decide) i

/-- The segments of a written path are read back as its places. -/
theorem segments?_ofPath {path : List Place} (h : path ≠ []) :
    segments? (ofPath path).toList = some (path.map fun p => unescape (segmentOf p).toList) := by
  have hsplit : splitString '/' ("/".intercalate (path.map segmentOf)) = path.map segmentOf :=
    splitString_intercalate (by simpa using h) (by simp [slash_not_mem_segmentOf])
  have hpieces : splitAt '/' ("/".intercalate (path.map segmentOf)).toList =
      path.map fun p => (segmentOf p).toList := by
    simpa [splitString, Function.comp_def] using congrArg (List.map String.toList) hsplit
  have hafter : after? ['#', '/'] (ofPath path).toList =
      some ("/".intercalate (path.map segmentOf)).toList := by
    rw [after?_eq_some_iff, ofPath, String.toList_append]
    rfl
  rw [segments?, hafter, Option.map_some, hpieces, List.map_map]
  rfl

/-- An index counts out the item at it: no index of a list has more digits than can be read, unless
the list has as many items. -/
theorem item_toDigits (ref : String) {items : List Value} {i : Nat} {w : Value}
    (h : items[i]? = some w) : item ref items (Nat.toDigits 10 i) = .ok w := by
  have hi : i < items.length := (List.getElem?_eq_some_iff.1 h).1
  have hdigits : (Nat.toDigits 10 i).all isDigitForm = true := by
    refine List.all_eq_true.2 fun c hc => ?_
    have hc := Nat.isDigit_of_mem_toDigits (by decide) (by decide) hc
    simp [isDigitForm, isDecimal, decimalValue?, hc]
  have hlength : ∀ most, 0 < most → items.length < Nat.pow 10 most →
      (Nat.toDigits 10 i).length ≤ most := fun most hmost hfew =>
    (Nat.length_toDigits_le_iff (by decide) hmost).2 (Nat.lt_trans hi hfew)
  have hshort : ¬ (mostDigits < (Nat.toDigits 10 i).length ∧
      items.length < Nat.pow 10 mostDigits) :=
    fun h => Nat.not_lt.2 (hlength mostDigits (by decide) h.2) h.1
  rw [item, if_neg (by simp [hdigits]), if_neg (by simpa using hshort), decimalNumber?_toDigits]
  simp only [Outcome.expect, bind, Except.bind, h]
  rfl

/-- One segment leads where its place does. -/
theorem step_of_part? (ref : String) {v w : Value} {p : Place} (h : v.part? p = some w) :
    step ref v (unescape (segmentOf p).toList) = .ok w := by
  cases p with
  | field name =>
    simp only [Value.part?, Value.field?] at h
    split at h
    · rw [segmentOf, String.toList_ofList, unescape_escape, step, String.ofList_toList, h]
    · cases h
  | index i =>
    have hplain : unescape (segmentOf (.index i)).toList = Nat.toDigits 10 i := by
      rw [toList_segmentOf_index, unescape_of_not_mem (not_mem_toDigits (by decide) i)]
    simp only [Value.part?] at h
    split at h
    · rw [hplain, step, item_toDigits ref h]
    · cases h

/-- The segments of a path lead where the path does. -/
theorem foldlM_step_of_follow? (ref : String) {v w : Value} {path : List Place}
    (h : v.follow? path = some w) :
    (path.map fun p => unescape (segmentOf p).toList).foldlM (step ref) v = .ok w := by
  induction path generalizing v with
  | nil =>
    cases h
    rfl
  | cons p path ih =>
    obtain ⟨u, hu, hw⟩ := Option.bind_eq_some_iff.1 h
    rw [List.map_cons, List.foldlM_cons, step_of_part? ref hu]
    exact ih hw

/-- A path that leads to a part of a document is written as a reference to just that part. -/
theorem resolve_ofPath {document v : Value} {path : List Place} (hne : path ≠ [])
    (h : document.follow? path = some v) : resolve document (ofPath path) = .ok v := by
  rw [resolve, segments?_ofPath hne]
  exact foldlM_step_of_follow? _ h

/-- A document with keys that look like escapes, separators and indices, and with the empty key. -/
def nestedDocument : Value :=
  .record [("a", .record [("b", .str "elsewhere")]),
    ("a/b", .record [("~1", .list [.str "first", .record [("", .record [("1", .str "deep")])]])])]

/-- A path through all of them. -/
def nestedPath : List Place := [.field "a/b", .field "~1", .index 1, .field "", .field "1"]

theorem resolve_nestedPath : ofPath nestedPath = "#/a~1b/~01/1//1" ∧
    nestedDocument.follow? nestedPath = some (.str "deep") ∧
    resolve nestedDocument (ofPath nestedPath) = .ok (.str "deep") :=
  ⟨by decide, rfl, resolve_ofPath (by decide) rfl⟩

end Reference
end ApiScribe

/-! The names of named schemas. A reference to a named schema ends with its name, and since tildes
and slashes are escaped in references, with its name as it is if there is no tilde. -/
namespace ApiScribe
namespace Text

theorem afterLast_of_not_mem {sep : Char} {cs : List Char} (h : sep ∉ cs) :
    afterLast sep cs = cs := by
  have hall : ∀ c ∈ cs.reverse, decide (c ≠ sep) = true := by
    intro c hc
    simpa using fun heq : c = sep => h (heq ▸ List.mem_reverse.1 hc)
  rw [afterLast, List.takeWhile_eq_self_iff.2 hall, List.reverse_reverse]

/-- What stands in front of a separator is not behind the last one. -/
theorem afterLast_append_cons (sep : Char) (as bs : List Char) :
    afterLast sep (as ++ sep :: bs) = afterLast sep bs := by
  have hreverse : (as ++ sep :: bs).reverse = bs.reverse ++ sep :: as.reverse := by simp
  by_cases h : sep ∈ bs.reverse
  · rw [afterLast, hreverse, takeWhile_ne_append_of_mem h, afterLast]
  · rw [afterLast, hreverse, takeWhile_ne_append_cons h, List.reverse_reverse,
      afterLast_of_not_mem (by simpa using h)]

/-- The last piece between separators. -/
theorem getLast?_splitAt (sep : Char) (cs : List Char) :
    (splitAt sep cs).getLast? = some (afterLast sep cs) := by
  by_cases h : sep ∈ cs
  · obtain ⟨front, last, hreverse, hfront⟩ := List.eq_append_cons_of_mem (List.mem_reverse.2 h)
    have hcs : cs = last.reverse ++ sep :: front.reverse := by
      rw [← List.reverse_reverse cs, hreverse]
      simp
    have hnot : sep ∉ front.reverse := by simpa using hfront
    rw [hcs, afterLast_append_cons, splitAt_append_cons, splitAt_of_not_mem hnot,
      List.getLast?_concat, afterLast_of_not_mem hnot]
  · rw [splitAt_of_not_mem h, afterLast_of_not_mem h, List.getLast?_singleton]

end Text

namespace Reference

/-- The key that a reference ends with. -/
def lastKey? (ref : String) : Option String :=
  ((segments? ref.toList).bind List.getLast?).map String.ofList

/-- The key that a reference ends with is its last segment without escapes. -/
theorem lastKey?_eq_some {ref key : String} (h : lastKey? ref = some key) :
    key = String.ofList (unescape (targetName ref).toList) := by
  obtain ⟨segment, hsegment, rfl⟩ := Option.map_eq_some_iff.1 h
  obtain ⟨segments, hsegments, hlast⟩ := Option.bind_eq_some_iff.1 hsegment
  obtain ⟨rest, hrest, rfl⟩ := Option.map_eq_some_iff.1 hsegments
  have htarget : Text.afterLast '/' ref.toList = Text.afterLast '/' rest := by
    rw [Text.after?_eq_some_iff.1 hrest]
    exact Text.afterLast_append_cons '/' ['#'] rest
  rw [List.getLast?_map, Text.getLast?_splitAt, Option.map_some] at hlast
  rw [targetName, String.toList_ofList, htarget, ← Option.some.inj hlast]

/-- Without a tilde the key that a reference ends with is its last segment. -/
theorem targetName_of_lastKey? {ref key : String} (h : lastKey? ref = some key)
    (htilde : '~' ∉ (targetName ref).toList) : targetName ref = key := by
  rw [lastKey?_eq_some h, unescape_of_not_mem htilde, String.ofList_toList]

end Reference

namespace Schema

/-- The named schemas of a document, if they are listed by name. -/
def entries (document : Value) : List (Scalar × Value) :=
  match named document with
  | .ok (.map schemas) => schemas
  | _ => []

theorem entries_eq {document : Value} {schemas : List (Scalar × Value)}
    (h : named document = .ok (.map schemas)) : entries document = schemas := by
  rw [entries, h]

theorem entries_of_not_map {document schemas : Value} (h : named document = .ok schemas)
    (hmap : ∀ m, schemas ≠ .map m) : entries document = [] := by
  rw [entries, h]
  split
  · next heq => exact absurd (Except.ok.inj heq) (hmap _)
  · rfl

/-- Their names. -/
def names (document : Value) : List String := (entries document).filterMap fun p => p.1.str?

/-- The named schemas of a document have different keys. -/
def HasDistinctNames (document : Value) : Prop :=
  (entries document).Pairwise fun p q => (p.1 == q.1) = false

instance (document : Value) : Decidable (HasDistinctNames document) :=
  inferInstanceAs (Decidable ((entries document).Pairwise fun p q => (p.1 == q.1) = false))

/-- Whether a reference ends with the name of a named schema. -/
def endsInName (document : Value) (ref : String) : Bool :=
  (Reference.lastKey? ref).any (names document).contains

theorem endsInName_iff {document : Value} {ref : String} : endsInName document ref = true ↔
    ∃ name ∈ names document, Reference.lastKey? ref = some name := by
  simp [endsInName, Option.any_eq_true, and_comm]

/-- A reference that leads to a named schema: through the map that holds them, and by a key. -/
def PointsToNamed (document : Value) (ref : String) : Prop :=
  ∃ place key schemas, Reference.segments? ref.toList = some (place ++ [key]) ∧
    place.foldlM (Reference.step ref) document = .ok (.map schemas) ∧
    named document = .ok (.map schemas) ∧ (Reference.resolve document ref).isOk = true

/-- Such a reference ends with the name of the schema. -/
theorem PointsToNamed.endsInName {document : Value} {ref : String}
    (h : PointsToNamed document ref) : endsInName document ref = true := by
  obtain ⟨place, key, schemas, hsegments, hplace, hnamed, hok⟩ := h
  have hstep : Reference.resolve document ref = Reference.step ref (.map schemas) key := by
    rw [Reference.resolve, hsegments]
    dsimp only
    rw [List.foldlM_append, hplace]
    exact bind_pure (Reference.step ref (.map schemas) key)
  refine endsInName_iff.2 ⟨String.ofList key, ?_, by simp [Reference.lastKey?, hsegments]⟩
  rw [hstep, Reference.step] at hok
  cases hget : Entries.get? schemas (.str (String.ofList key)) with
  | none =>
    rw [hget] at hok
    cases hok
  | some v =>
    obtain ⟨p, hp, -⟩ := Option.map_eq_some_iff.1 hget
    have hsame : (p.1 == .str (String.ofList key)) = true := by simpa using List.find?_some hp
    have hkey : p.1.str? = some (String.ofList key) := Scalar.str?_eq_of_same hsame
    rw [names, entries_eq hnamed]
    exact List.mem_filterMap.2 ⟨p, List.mem_of_find?_eq_some hp, hkey⟩

end Schema
end ApiScribe
