import ApiScribe.Proofs.Text.Comment
import ApiScribe.Proofs.TypeText.Names

/-! Types in pieces: names of references, keys of object types, and anything else. If the pieces are
put together as a type is written, the text passes the check as it is, and the names read in it are
those of the references in it that are not known without import, in the order of the text. -/
namespace ApiScribe
namespace TypeText

/-- A piece of the text of a type. -/
inductive Piece
  | ref (name : String)
  | key (name : String)
  | plain (text : String)
  deriving Repr, DecidableEq

/-- The text of a piece. -/
def Piece.text : Piece → String
  | ref name => name
  | key name => name
  | plain text => text

/-- The reference that a piece is the name of. -/
def Piece.ref? : Piece → Option String
  | ref name => some name
  | _ => none

/-- The text of pieces one after the other. -/
def joined (ps : List Piece) : String := String.join (ps.map Piece.text)

/-- Whether a name is known without import. -/
def isKnown (name : String) : Bool := isPrimitive name || builtins.contains name

/-- The names of references among pieces that need an import, in order. -/
def imported (ps : List Piece) : List String := (ps.filterMap Piece.ref?).filter (!isKnown ·)

/-- Characters behind which a name is complete and no key. -/
structure Ends (rest : List Char) : Prop where
  word : EndsWord rest
  key : isKeyBefore rest = false

/-- Characters in which exactly some names are read, in order, if the last name is complete. -/
def Yields (cs : List Char) (names : List String) : Prop :=
  ∀ last rest, last ≠ '.' → Ends rest → ∃ last', last' ≠ '.' ∧
    namesFrom last .between (cs ++ rest) = names ++ namesFrom last' .between rest

/-- Characters that leave the brackets that are open as they are. -/
def Balanced (cs : List Char) : Prop :=
  ∀ stack rest, isBalancedFrom stack none (cs ++ rest) = isBalancedFrom stack none rest

/-- Characters of types, with no blanks around them, that pass the check of brackets, and in which
exactly some names are read. -/
structure IsRead (cs : List Char) (names : List String) : Prop where
  ne_nil : cs ≠ []
  trimmed : Text.IsTrimmed cs
  chars : ∀ c ∈ cs, isTypeChar c = true
  balanced : Balanced cs
  yields : Yields cs names

variable {c : Char} {cs ds rest w : List Char} {names names' : List String} {ps qs : List Piece}

@[simp] theorem joined_nil : joined [] = "" := rfl

@[simp] theorem joined_cons (p : Piece) (ps : List Piece) :
    joined (p :: ps) = p.text ++ joined ps := by
  simp [joined]

@[simp] theorem joined_append (ps qs : List Piece) :
    joined (ps ++ qs) = joined ps ++ joined qs := by
  simp [joined]

@[simp] theorem imported_append (ps qs : List Piece) :
    imported (ps ++ qs) = imported ps ++ imported qs := by
  simp [imported]

@[simp] theorem imported_nil : imported [] = [] := rfl

@[simp] theorem imported_plain (text : String) (ps : List Piece) :
    imported (.plain text :: ps) = imported ps := rfl

@[simp] theorem imported_key (name : String) (ps : List Piece) :
    imported (.key name :: ps) = imported ps := rfl

theorem imported_ref (name : String) :
    imported [.ref name] = if isKnown name then [] else [name] := by
  cases h : isKnown name <;> simp [imported, Piece.ref?, h]

theorem mem_imported_ref {name n : String} :
    n ∈ imported [.ref name] ↔ name = n ∧ isKnown n = false := by
  simp only [imported, List.mem_filter, List.mem_filterMap, List.mem_singleton, exists_eq_left,
    Piece.ref?, Option.some.injEq, Bool.not_eq_true']

theorem joined_intercalate (sep : String) (pss : List (List Piece)) :
    joined ([.plain sep].intercalate pss) = sep.intercalate (pss.map joined) := by
  induction pss with
  | nil => rfl
  | cons ps pss ih =>
    cases pss with
    | nil => simp
    | cons qs pss =>
      rw [List.intercalate_cons_cons, joined_append, joined_append, ih, List.map_cons,
        List.map_cons, List.map_cons, String.intercalate_cons_cons]
      simp [Piece.text, String.append_assoc]

theorem imported_intercalate (sep : String) (pss : List (List Piece)) :
    imported ([.plain sep].intercalate pss) = pss.flatMap imported := by
  induction pss with
  | nil => rfl
  | cons ps pss ih =>
    cases pss with
    | nil => simp
    | cons qs pss =>
      rw [List.intercalate_cons_cons, imported_append, ih]
      simp

/-- Each of several types once, as far as their texts tell. -/
def distinct (pss : List (List Piece)) : List (List Piece) :=
  (pss.map joined).eraseDups.filterMap fun t => pss.find? fun ps => joined ps == t

theorem map_joined_distinct (pss : List (List Piece)) :
    (distinct pss).map joined = (pss.map joined).eraseDups := by
  have hfound : ∀ t ∈ (pss.map joined).eraseDups,
      (pss.find? fun ps => joined ps == t).map joined = some t := by
    intro t ht
    obtain ⟨qs, hqs, rfl⟩ := List.mem_map.1 (List.mem_eraseDups.1 ht)
    cases hfind : pss.find? fun ps => joined ps == joined qs with
    | none => exact absurd (beq_self_eq_true (joined qs)) (List.find?_eq_none.1 hfind qs hqs)
    | some ps =>
      have hsame : joined ps = joined qs := by simpa using List.find?_some hfind
      rw [Option.map_some, hsame]
  rw [distinct, List.map_filterMap, List.filterMap_congr hfound, List.filterMap_some]

theorem distinct_subset (pss : List (List Piece)) : distinct pss ⊆ pss := by
  intro ps hps
  obtain ⟨t, -, ht⟩ := List.mem_filterMap.1 hps
  exact List.mem_of_find?_eq_some ht

/-- Of the types that are left out, one of the same text is kept. -/
theorem exists_mem_distinct {pss : List (List Piece)} (h : ps ∈ pss) :
    ∃ qs ∈ distinct pss, joined qs = joined ps := by
  have hmem : joined ps ∈ (distinct pss).map joined := by
    rw [map_joined_distinct, List.mem_eraseDups]
    exact List.mem_map_of_mem h
  exact List.mem_map.1 hmem

theorem ends_nil : Ends [] := ⟨endsWord_nil, rfl⟩

/-- A sign that is no part of a word and no mark of keys ends a name, blanks before it or not. -/
theorem ends_append (bs : List Char) (hbs : ∀ b ∈ bs, Text.isBlank b = true)
    (hc : isSeparator c = true ∧ Text.isBlank c = false ∧ c ≠ ':' ∧ c ≠ '?') (rest : List Char) :
    Ends (bs ++ c :: rest) := by
  constructor
  · cases bs with
    | nil => exact endsWord_cons hc.1
    | cons b bs => exact endsWord_cons (isSeparator_of_isBlank (hbs b List.mem_cons_self))
  · rw [← Bool.not_eq_true, isKeyBefore_iff, Text.trimStart,
      List.dropWhile_append_of_pos hbs, List.dropWhile_cons_of_neg (by simp [hc.2.1])]
    simp [hc.2.2]

/-- A name is read as one word, and is a type name unless it is a key or known without import. -/
theorem namesFrom_name (h : isName w = true) (hrest : EndsWord rest) {last : Char}
    (hlast : last ≠ '.') : ∃ last', last' ≠ '.' ∧ namesFrom last .between (w ++ rest) =
      (if isKeyBefore rest || isKnown (String.ofList w) then [] else [String.ofList w]) ++
        namesFrom last' .between rest := by
  have hchars := isNameChar_of_isName h
  cases w with
  | nil => cases h
  | cons c w =>
    have hword : ∀ d ∈ c :: w, isWordChar d = true :=
      fun d hd => isWordChar_of_isNameChar (hchars d hd)
    have hstart : isWordStart c = true := by
      simp only [isName, Bool.and_eq_true] at h
      simp only [isWordStart, Bool.or_eq_true]
      exact .inl (Bool.or_eq_true_iff.1 h.1)
    have hquote : c ≠ '\'' ∧ c ≠ '"' := by
      constructor <;> rintro rfl <;> exact absurd hstart (by decide)
    have hdollar : (w.reverse ++ [c]).contains '$' = false := by
      rw [← List.reverse_cons, List.contains_reverse, ← Bool.not_eq_true, List.contains_iff_mem]
      exact fun hmem => absurd (hchars '$' hmem) (by decide)
    have hname : typeName? (w.reverse ++ [c]) false rest =
        if isKeyBefore rest || isKnown (String.ofList (c :: w)) then []
        else [String.ofList (c :: w)] := by
      rw [typeName?, hdollar, ← List.reverse_cons, List.reverse_reverse, isKnown]
      simp only [Bool.or_false, Bool.or_assoc]
    refine ⟨(w.reverse ++ [c]).headD c, ?_, ?_⟩
    · have hmem : (w.reverse ++ [c]).headD c ∈ c :: w := by
        cases hrev : w.reverse with
        | nil => simp
        | cons d ds =>
          have hd : d ∈ w.reverse := hrev ▸ List.mem_cons_self
          exact List.mem_cons_of_mem c (List.mem_reverse.1 hd)
      intro hdot
      rw [hdot] at hmem
      exact absurd (hword '.' hmem) (by decide)
    · rw [List.cons_append, namesFrom, if_neg (by simp [hquote]), if_pos hstart,
        decide_eq_false hlast, namesFrom_word (List.forall_mem_cons.1 hword).2 hrest, hname]

theorem Yields.nil : Yields [] [] := fun last _ hlast _ => ⟨last, hlast, rfl⟩

/-- Names are read one after the other, if the first part ends where the second starts. -/
theorem Yields.append (h : Yields cs names) (h' : Yields ds names')
    (hends : ∀ rest, Ends rest → Ends (ds ++ rest)) : Yields (cs ++ ds) (names ++ names') := by
  intro last rest hlast hrest
  obtain ⟨mid, hmid, heq⟩ := h last (ds ++ rest) hlast (hends rest hrest)
  obtain ⟨last', hlast', heq'⟩ := h' mid rest hmid hrest
  exact ⟨last', hlast', by rw [List.append_assoc, heq, heq', List.append_assoc]⟩

/-- Signs in front of a type are passed over. -/
theorem Yields.signs_append (hs : cs.all (fun c => isSeparator c && c != '.') = true)
    (h : Yields ds names) : Yields (cs ++ ds) names := by
  induction cs with
  | nil => exact h
  | cons c cs ih =>
    simp only [List.all_cons, Bool.and_eq_true, bne_iff_ne] at hs
    intro last rest hlast hrest
    have hnext : (if Text.isBlank c then last else c) ≠ '.' := by
      split
      · exact hlast
      · exact hs.1.2
    obtain ⟨last', hlast', heq⟩ := ih hs.2 _ rest hnext hrest
    exact ⟨last', hlast', by
      rw [List.cons_append, List.cons_append, namesFrom_separator hs.1.1, heq]⟩

/-- Signs behind a type are passed over, if a name can end in front of them. -/
theorem Yields.append_signs (h : Yields cs names)
    (hs : ds.all (fun c => isSeparator c && c != '.') = true) (hends : ∀ rest, Ends (ds ++ rest)) :
    Yields (cs ++ ds) names := by
  have hnone : Yields ds [] := by simpa using Yields.nil.signs_append hs
  simpa using h.append hnone fun rest _ => hends rest

/-- A key in front of its type is passed over. -/
theorem Yields.key_append (h : isName w = true) {mark : String} (hmark : mark ∈ [": ", "?: "])
    (hds : Yields ds names) : Yields (w ++ (mark.toList ++ ds)) names := by
  have hall : ∀ m ∈ [": ", "?: "], m.toList.all (fun c => isSeparator c && c != '.') = true ∧
      ∀ rest, EndsWord (m.toList ++ rest) ∧ isKeyBefore (m.toList ++ rest) = true := by
    simp only [List.forall_mem_cons, List.not_mem_nil, false_imp_iff, implies_true, and_true]
    exact ⟨⟨by decide, fun rest => ⟨endsWord_cons (by decide), rfl⟩⟩,
      ⟨by decide, fun rest => ⟨endsWord_cons (by decide), rfl⟩⟩⟩
  obtain ⟨hsigns, hbefore⟩ := hall mark hmark
  intro last rest hlast hrest
  obtain ⟨hends, hkey⟩ := hbefore (ds ++ rest)
  obtain ⟨mid, hmid, heq⟩ := namesFrom_name h hends hlast
  obtain ⟨last', hlast', heq'⟩ := hds.signs_append hsigns mid rest hmid hrest
  refine ⟨last', hlast', ?_⟩
  rw [hkey, Bool.true_or, if_pos rfl, List.nil_append] at heq
  rw [List.append_assoc, List.append_assoc, heq, ← List.append_assoc, heq']

/-- A character that neither opens nor closes brackets or quotes. -/
def isUnbracketed (c : Char) : Bool :=
  !(['(', '[', '\x7b', '<', ')', ']', '\x7d', '>', '\'', '"'].contains c)

theorem isUnbracketed_of_isNameChar (h : isNameChar c = true) : isUnbracketed c = true := by
  rw [← Bool.not_eq_false]
  intro hbracket
  simp only [isUnbracketed, Bool.not_eq_false', List.contains_iff_mem, List.mem_cons,
    List.not_mem_nil, or_false] at hbracket
  rcases hbracket with rfl | rfl | rfl | rfl | rfl | rfl | rfl | rfl | rfl | rfl <;>
    exact absurd h (by decide)

theorem balanced_of_isUnbracketed (h : ∀ c ∈ cs, isUnbracketed c = true) : Balanced cs := by
  intro stack rest
  induction cs with
  | nil => rfl
  | cons c cs ih =>
    obtain ⟨hc, hcs⟩ := List.forall_mem_cons.1 h
    simp only [isUnbracketed, Bool.not_eq_true', List.contains_eq_mem, List.mem_cons,
      List.not_mem_nil, or_false, decide_eq_false_iff_not, not_or] at hc
    rw [List.cons_append, isBalancedFrom]
    simpa [hc, opener?] using ih hcs

theorem balanced_of_all (h : cs.all isUnbracketed = true) : Balanced cs :=
  balanced_of_isUnbracketed (List.all_eq_true.1 h)

theorem Balanced.append (h : Balanced cs) (h' : Balanced ds) : Balanced (cs ++ ds) := by
  intro stack rest
  rw [List.append_assoc, h, h']

/-- Brackets around balanced characters are closed by the bracket that belongs to them. -/
theorem Balanced.enclosed {p : Char × Char} (hp : p ∈ [('<', '>'), ('[', ']'), ('\x7b', '\x7d')])
    (h : Balanced cs) : Balanced (p.1 :: (cs ++ [p.2])) := by
  intro stack rest
  rw [List.cons_append, List.append_assoc]
  simp only [List.mem_cons, List.not_mem_nil, or_false] at hp
  rcases hp with rfl | rfl | rfl <;>
  · rw [isBalancedFrom]
    simp [h _ _, isBalancedFrom, opener?]

/-- A name is read as itself, if it needs an import. -/
theorem isRead_of_isName (h : isName w = true) : IsRead w (imported [.ref (String.ofList w)]) := by
  have hchars := isNameChar_of_isName h
  refine ⟨?_, ?_, isTypeChar_of_isName h, ?_, ?_⟩
  · rintro rfl
    cases h
  · exact Text.isTrimmed_of_no_blank fun c hc =>
      isBlank_of_isWordChar (isWordChar_of_isNameChar (hchars c hc))
  · exact balanced_of_isUnbracketed fun c hc => isUnbracketed_of_isNameChar (hchars c hc)
  · intro last rest hlast hrest
    rw [imported_ref]
    simpa [hrest.key] using namesFrom_name h hrest.word hlast

theorem isRead_of_isKnown {s : String} (h : isName s.toList = true) (hknown : isKnown s = true) :
    IsRead s.toList [] := by
  have hread := isRead_of_isName h
  rwa [String.ofList_toList, imported_ref, if_pos hknown] at hread

/-- What stands between two types: signs that end a name and are no brackets. -/
structure IsBetween (sep : List Char) : Prop where
  signs : sep.all (fun c => isSeparator c && c != '.') = true
  chars : sep.all isTypeChar = true
  unbracketed : sep.all isUnbracketed = true
  ends : ∀ rest, Ends (sep ++ rest)

theorem isBetween {sep : String} (h : sep ∈ [" | ", " & ", "; "]) : IsBetween sep.toList := by
  have hblank : ∀ b ∈ [' '], Text.isBlank b = true := List.all_eq_true.1 (by decide)
  simp only [List.mem_cons, List.not_mem_nil, or_false] at h
  rcases h with rfl | rfl | rfl
  · exact ⟨by decide, by decide, by decide, fun rest => ends_append [' '] hblank (by decide) _⟩
  · exact ⟨by decide, by decide, by decide, fun rest => ends_append [' '] hblank (by decide) _⟩
  · exact ⟨by decide, by decide, by decide,
      fun rest => ends_append [] (by simp) (by decide) _⟩

namespace IsRead

/-- Two types with a sign between them. -/
theorem join (h : IsRead cs names) (h' : IsRead ds names') {sep : List Char}
    (hsep : IsBetween sep) : IsRead (cs ++ sep ++ ds) (names ++ names') where
  ne_nil := by simp [h.ne_nil]
  trimmed := h.trimmed.append h.ne_nil h'.trimmed h'.ne_nil sep
  chars := List.forall_mem_append.2
    ⟨List.forall_mem_append.2 ⟨h.chars, List.all_eq_true.1 hsep.chars⟩, h'.chars⟩
  balanced := (h.balanced.append (balanced_of_all hsep.unbracketed)).append h'.balanced
  yields := by
    rw [List.append_assoc]
    refine h.yields.append (h'.yields.signs_append hsep.signs) fun rest _ => ?_
    rw [List.append_assoc]
    exact hsep.ends (ds ++ rest)

/-- A field of an object type. -/
theorem field (h : isName w = true) {mark : String} (hmark : mark ∈ [": ", "?: "])
    (hds : IsRead ds names) : IsRead (w ++ mark.toList ++ ds) names := by
  have hname := isRead_of_isName h
  have hall : ∀ m ∈ [": ", "?: "], m.toList.all isTypeChar = true ∧
      m.toList.all isUnbracketed = true := by decide
  obtain ⟨hchars, hunbracketed⟩ := hall mark hmark
  have htrimmed := hname.trimmed.append hname.ne_nil hds.trimmed hds.ne_nil mark.toList
  refine ⟨by simp [hname.ne_nil], htrimmed, ?_, ?_, ?_⟩
  · exact List.forall_mem_append.2
      ⟨List.forall_mem_append.2 ⟨hname.chars, List.all_eq_true.1 hchars⟩, hds.chars⟩
  · exact (hname.balanced.append (balanced_of_all hunbracketed)).append hds.balanced
  · rw [List.append_assoc]
    exact hds.yields.key_append h hmark

/-- Two brackets behind a type make it an array. -/
theorem brackets (h : IsRead cs names) : IsRead (cs ++ "[]".toList) names where
  ne_nil := by simp [h.ne_nil]
  trimmed := by
    have hbracket : Text.IsTrimmed [']'] := Text.isTrimmed_of_all (by decide)
    simpa using h.trimmed.append h.ne_nil hbracket (by decide) ['[']
  chars := List.forall_mem_append.2 ⟨h.chars, List.all_eq_true.1 (by decide)⟩
  balanced := by
    have hnone : Balanced [] := fun _ _ => rfl
    simpa using h.balanced.append (hnone.enclosed (p := ('[', ']')) (by decide))
  yields := h.yields.append_signs (by decide) fun rest =>
    ends_append [] (by simp) (by decide) _

/-- A type with arguments that is known without import. -/
theorem application (head : String) (hname : isName head.toList = true)
    (hknown : isKnown head = true) (hchars : ∀ c ∈ cs, isTypeChar c = true) (hcs : Balanced cs)
    (hyields : Yields cs names) : IsRead (head.toList ++ '<' :: (cs ++ ['>'])) names := by
  have hhead := isRead_of_isKnown hname hknown
  refine ⟨by simp [hhead.ne_nil], ?_, ?_, ?_, ?_⟩
  · have hbracket : Text.IsTrimmed ['>'] := Text.isTrimmed_of_all (by decide)
    simpa using hhead.trimmed.append hhead.ne_nil hbracket (by decide) ('<' :: cs)
  · exact List.forall_mem_append.2 ⟨hhead.chars, List.forall_mem_cons.2
      ⟨by decide, List.forall_mem_append.2 ⟨hchars, List.all_eq_true.1 (by decide)⟩⟩⟩
  · exact hhead.balanced.append (hcs.enclosed (p := ('<', '>')) (by decide))
  · have hargs : Yields (['<'] ++ (cs ++ ['>'])) names := by
      refine Yields.signs_append (by decide) (hyields.append_signs (by decide) fun rest => ?_)
      exact ends_append [] (by simp) (by decide) rest
    exact hhead.yields.append hargs fun rest _ => ends_append [] (by simp) (by decide) _

theorem array (h : IsRead cs names) : IsRead ("Array<".toList ++ cs ++ ">".toList) names := by
  have harray := application "Array" (by decide) (by decide) h.chars h.balanced h.yields
  simpa using harray

theorem record (h : IsRead cs names) :
    IsRead ("Record<string, ".toList ++ cs ++ ">".toList) names := by
  have hstring := isRead_of_isKnown (s := "string") (by decide) (by decide)
  have hyields : Yields ("string".toList ++ (", ".toList ++ cs)) names :=
    hstring.yields.append (h.yields.signs_append (by decide)) fun rest _ =>
      ends_append [] (by simp) (by decide) _
  have hcomma : Balanced ", ".toList := balanced_of_all (by decide)
  have hchars : ∀ c ∈ ", ".toList, isTypeChar c = true := List.all_eq_true.1 (by decide)
  have hrecord := application "Record" (by decide) (by decide)
    (List.forall_mem_append.2 ⟨hstring.chars, List.forall_mem_append.2 ⟨hchars, h.chars⟩⟩)
    (hstring.balanced.append (hcomma.append h.balanced))
    hyields
  simpa using hrecord

/-- Fields in braces make an object type. -/
theorem object (h : IsRead cs names) : IsRead ("\x7b ".toList ++ cs ++ " \x7d".toList) names where
  ne_nil := by simp
  trimmed := by
    have hopen : Text.IsTrimmed ['\x7b'] := Text.isTrimmed_of_all (by decide)
    have hclose : Text.IsTrimmed ['\x7d'] := Text.isTrimmed_of_all (by decide)
    simpa using hopen.append (by decide) hclose (by decide) (' ' :: (cs ++ [' ']))
  chars := List.forall_mem_append.2 ⟨List.forall_mem_append.2
    ⟨List.all_eq_true.1 (by decide), h.chars⟩, List.all_eq_true.1 (by decide)⟩
  balanced := by
    have hblank : Balanced [' '] := balanced_of_all (by decide)
    have hbalanced := ((hblank.append h.balanced).append hblank).enclosed
      (p := ('\x7b', '\x7d')) (by decide)
    simpa using hbalanced
  yields := by
    rw [List.append_assoc]
    refine Yields.signs_append (by decide) (h.yields.append_signs (by decide) fun rest => ?_)
    exact ends_append [' '] (List.all_eq_true.1 (by decide)) (by decide) rest

/-- A text that is read as written passes the check as it is. -/
theorem normalize_eq {t : String} (h : IsRead t.toList names) : normalize t = t := by
  have htrimmed : Text.trimmed t = t := by
    rw [Text.trimmed, Text.trim_eq_self h.trimmed, String.ofList_toList]
  have hbalanced : isBalanced t.toList = true := by
    have hall := h.balanced [] []
    rwa [List.append_nil] at hall
  have hne : t ≠ "" := fun hempty => h.ne_nil (String.toList_eq_nil_iff.2 hempty)
  have husable : isUsable t = true := by
    simp only [isUsable, Bool.or_eq_true, Bool.and_eq_true, List.all_eq_true]
    exact .inr ⟨h.chars, hbalanced⟩
  simp [normalize, htrimmed, hne, husable]

theorem names_eq {t : String} (h : IsRead t.toList names) : TypeText.names t = names.eraseDups := by
  obtain ⟨last, -, hnames⟩ := h.yields ' ' [] (by decide) ends_nil
  rw [List.append_nil] at hnames
  rw [TypeText.names, hnames]
  simp [namesFrom]

/-- The names that are read in a text are determined by it. -/
theorem unique (h : IsRead cs names) (h' : IsRead cs names') : names = names' := by
  obtain ⟨last, -, hnames⟩ := h.yields ' ' [] (by decide) ends_nil
  obtain ⟨last', -, hnames'⟩ := h'.yields ' ' [] (by decide) ends_nil
  rw [hnames] at hnames'
  simpa [namesFrom] using hnames'

end IsRead

/-- Pieces whose text is read as they say. -/
def AreRead (ps : List Piece) : Prop := IsRead (joined ps).toList (imported ps)

namespace AreRead

theorem ref {name : String} (h : isName name.toList = true) : AreRead [.ref name] := by
  have hread := isRead_of_isName h
  rw [String.ofList_toList] at hread
  simpa [AreRead, Piece.text] using hread

theorem known {text : String} (h : isName text.toList = true) (hknown : isKnown text = true) :
    AreRead [.plain text] := by
  simpa [AreRead, Piece.text] using isRead_of_isKnown h hknown

/-- Several types with a sign between them. -/
theorem intercalate (sep : String) (hsep : sep ∈ [" | ", " & ", "; "]) {pss : List (List Piece)}
    (hne : pss ≠ []) (h : ∀ ps ∈ pss, AreRead ps) : AreRead ([.plain sep].intercalate pss) := by
  induction pss with
  | nil => exact absurd rfl hne
  | cons ps pss ih =>
    obtain ⟨hps, hpss⟩ := List.forall_mem_cons.1 h
    cases pss with
    | nil => simpa using hps
    | cons qs pss =>
      have hjoin := hps.join (ih (List.cons_ne_nil qs pss) hpss) (isBetween hsep)
      rw [AreRead, List.intercalate_cons_cons]
      simpa [Piece.text] using hjoin

/-- Types of the same text have the same names. -/
theorem imported_eq (h : AreRead ps) (h' : AreRead qs) (heq : joined ps = joined qs) :
    imported ps = imported qs := by
  rw [AreRead, heq] at h
  exact h.unique h'

/-- Of several types, each taken once, all names are read. -/
theorem mem_imported_distinct {pss : List (List Piece)} (h : ∀ ps ∈ pss, AreRead ps) {n : String} :
    (∃ ps ∈ distinct pss, n ∈ imported ps) ↔ ∃ ps ∈ pss, n ∈ imported ps := by
  constructor
  · rintro ⟨ps, hps, hn⟩
    exact ⟨ps, distinct_subset pss hps, hn⟩
  · rintro ⟨ps, hps, hn⟩
    obtain ⟨qs, hqs, heq⟩ := exists_mem_distinct hps
    have hsame := (h qs (distinct_subset pss hqs)).imported_eq (h ps hps) heq
    exact ⟨qs, hqs, hsame ▸ hn⟩

end AreRead

end TypeText
end ApiScribe
