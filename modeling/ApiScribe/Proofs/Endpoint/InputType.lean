import ApiScribe.Proofs.Endpoint.Slots
import ApiScribe.Proofs.Endpoint.Url
import ApiScribe.Proofs.Text.Standing
import ApiScribe.Proofs.TypeText.Pieces

/-! The declared type of an input with several slots. Names that are no identifiers stand between
quotes in it, and the check of types lets only some of the characters between quotes pass; of types
that pass the check a shape is made that passes it if and only if all quoted names consist of such
characters. -/
namespace ApiScribe

namespace TypeText

/-- Brackets and quotes that are closed at the end are closed in front of any text, and leave the
brackets that are open outside as they are. -/
theorem isBalancedFrom_append {stack : List Char} {quote : Option Char} {cs : List Char}
    (h : isBalancedFrom stack quote cs = true) (outer rest : List Char) :
    isBalancedFrom (stack ++ outer) quote (cs ++ rest) = isBalancedFrom outer none rest := by
  induction cs generalizing stack quote with
  | nil =>
    rw [isBalancedFrom, Bool.and_eq_true, List.isEmpty_iff, Option.isNone_iff_eq_none] at h
    rw [h.1, h.2]
    rfl
  | cons c cs ih =>
    rw [List.cons_append]
    cases quote with
    | some q =>
      rw [isBalancedFrom] at h ⊢
      exact ih h
    | none =>
      rw [isBalancedFrom] at h ⊢
      split at h
      · next hquote =>
        rw [if_pos hquote]
        exact ih h
      · next hquote =>
        rw [if_neg hquote]
        split at h
        · next hopen =>
          rw [if_pos hopen]
          exact ih h
        · next hopen =>
          rw [if_neg hopen]
          cases hopener : opener? c with
          | none =>
            rw [hopener] at h
            exact ih h
          | some o =>
            rw [hopener] at h
            cases stack with
            | nil => cases h
            | cons top stack =>
              rw [Bool.and_eq_true] at h
              simpa [h.1] using ih h.2

theorem balanced_of_isBalanced {cs : List Char} (h : isBalanced cs = true) : Balanced cs :=
  fun outer rest => isBalancedFrom_append h outer rest

/-- Characters of types, with all brackets and quotes closed. -/
structure IsPart (cs : List Char) : Prop where
  chars : ∀ c ∈ cs, isTypeChar c = true
  balanced : Balanced cs

theorem IsPart.append {cs ds : List Char} (h : IsPart cs) (h' : IsPart ds) : IsPart (cs ++ ds) :=
  ⟨List.forall_mem_append.2 ⟨h.chars, h'.chars⟩, h.balanced.append h'.balanced⟩

theorem isPart_of_all {cs : List Char} (h : cs.all isTypeChar = true)
    (hbrackets : cs.all isUnbracketed = true) : IsPart cs :=
  ⟨List.all_eq_true.1 h, balanced_of_all hbrackets⟩

theorem IsPart.intercalate (sep : String) (hsep : IsPart sep.toList) {ss : List String}
    (h : ∀ s ∈ ss, IsPart s.toList) : IsPart (sep.intercalate ss).toList := by
  induction ss with
  | nil => exact isPart_of_all rfl rfl
  | cons s ss ih =>
    obtain ⟨hs, hss⟩ := List.forall_mem_cons.1 h
    cases ss with
    | nil => simpa using hs
    | cons t ss =>
      rw [String.intercalate_cons_cons, String.toList_append, String.toList_append]
      exact (hs.append hsep).append (ih hss)

/-- What passes the check can be part of other types. -/
theorem isPart_of_isUsable {t : String} (h : isUsable t = true) : IsPart t.toList := by
  refine ⟨isTypeChar_of_isUsable h, ?_⟩
  simp only [isUsable, Bool.or_eq_true, Bool.and_eq_true] at h
  rcases h with (h | h) | h
  · have hall : ∀ p ∈ primitives, p.toList.all isUnbracketed = true := by decide
    exact balanced_of_all (hall t (List.contains_iff_mem.1 h))
  · refine balanced_of_isUnbracketed fun c hc => ?_
    rcases Endpoint.mem_of_isIdentifier h hc with hc | rfl
    · exact isUnbracketed_of_isNameChar hc
    · rfl
  · exact balanced_of_isBalanced h.2

/-- A text that the check leaves as it is passes it. -/
theorem isUsable_of_normalize_eq {t : String} (h : normalize t = t) : isUsable t = true := by
  unfold normalize at h
  dsimp only at h
  split at h
  · next husable =>
    rw [h, Bool.and_eq_true] at husable
    exact husable.2
  · rw [← h]
    decide

theorem isUnbracketed_of_isWordChar {c : Char} (h : isWordChar c = true) :
    isUnbracketed c = true := by
  rw [isWordChar, Bool.or_eq_true, beq_iff_eq] at h
  rcases h with h | rfl
  · exact isUnbracketed_of_isNameChar h
  · rfl

/-- Characters between quotes are closed by the next quote. -/
theorem isBalancedFrom_quoted {cs : List Char} (h : ∀ c ∈ cs, c ≠ '"') (stack rest : List Char) :
    isBalancedFrom stack (some '"') (cs ++ '"' :: rest) = isBalancedFrom stack none rest := by
  induction cs with
  | nil => rfl
  | cons c cs ih =>
    obtain ⟨hc, hcs⟩ := List.forall_mem_cons.1 h
    rw [List.cons_append, isBalancedFrom, if_neg hc]
    exact ih hcs

theorem isPart_quoted {cs : List Char} (h : ∀ c ∈ cs, isTypeChar c = true ∧ c ≠ '"') :
    IsPart ('"' :: cs ++ ['"']) where
  chars := List.forall_mem_append.2 ⟨List.forall_mem_cons.2 ⟨by decide, fun c hc => (h c hc).1⟩,
    by simp [show isTypeChar '"' = true by decide]⟩
  balanced := by
    intro stack rest
    have hquote := isBalancedFrom_quoted (fun c hc => (h c hc).2) stack rest
    rw [List.append_assoc, List.cons_append, isBalancedFrom]
    simpa using hquote

end TypeText

namespace Endpoint

open Schema TypeText

/-- A character that stands between quotes as it is, and that the check of types lets pass. -/
def isPlainKeyChar (c : Char) : Bool := isTypeChar c && Json.standsRaw true c && c != '"'

/-- Whether the key of a name can be part of a type: it is bare, or only has such characters. -/
def hasPlainKey (name : String) : Bool := isMemberKey name || name.toList.all isPlainKeyChar

theorem shortEscape?_of_isPlainKeyChar {c : Char} (h : isPlainKeyChar c = true) :
    Json.shortEscape? c = none := by
  simp only [isPlainKeyChar, Bool.and_eq_true, bne_iff_ne] at h
  obtain ⟨⟨htype, hraw⟩, hquote⟩ := h
  unfold Json.shortEscape?
  split
  · exact absurd rfl hquote
  · exact absurd htype (by decide)
  all_goals first
  | rfl
  | exact absurd hraw (by decide)

theorem quotedChar_of_isPlainKeyChar {c : Char} (h : isPlainKeyChar c = true) :
    Json.quotedChar true c = [c] := by
  have hraw : Json.standsRaw true c = true := by
    simp only [isPlainKeyChar, Bool.and_eq_true] at h
    exact h.1.2
  simp [Json.quotedChar, shortEscape?_of_isPlainKeyChar h, hraw]

/-- Any other character has one between quotes that the check of types does not let pass: the
character itself, or a backslash. -/
theorem exists_of_not_isPlainKeyChar {c : Char} (h : isPlainKeyChar c = false) :
    ∃ d ∈ Json.quotedChar true c, isTypeChar d = false := by
  have hslash : isTypeChar '\\' = false := by decide
  unfold Json.quotedChar
  split
  · exact ⟨'\\', by simp, hslash⟩
  · next hshort =>
    split
    · next hraw =>
      refine ⟨c, by simp, ?_⟩
      have hquote : c ≠ '"' := by
        rintro rfl
        cases hshort
      simpa [isPlainKeyChar, hraw, hquote] using h
    · refine ⟨'\\', ?_, hslash⟩
      unfold Json.charEscape
      dsimp only
      split <;> simp [Json.unitEscape]

/-- The characters of a name that stands bare. -/
theorem mem_of_isMemberKey {name : String} (h : isMemberKey name = true) {c : Char}
    (hc : c ∈ name.toList) : TypeText.isWordChar c = true ∨ c = '\n' := by
  rw [isMemberKey] at h
  cases hname : name.toList with
  | nil =>
    rw [hname] at h
    cases h
  | cons d ds =>
    rw [hname] at h hc
    dsimp only at h
    rw [Bool.and_eq_true, List.all_eq_true] at h
    obtain ⟨hstart, hrest⟩ := h
    rcases List.mem_cons.1 hc with rfl | hc
    · exact .inl (isWordChar_of_isWordStart hstart)
    · split at hrest
      · next hlast =>
        rw [← List.dropLast_append_getLast? '\n' hlast, List.mem_append, List.mem_singleton] at hc
        exact hc.imp_left (hrest c)
      · exact .inl (hrest c hc)

theorem isPart_memberKey {name : String} (h : hasPlainKey name = true) :
    IsPart (memberKey name).toList := by
  rw [hasPlainKey, Bool.or_eq_true, List.all_eq_true] at h
  by_cases hkey : isMemberKey name = true
  · rw [memberKey, if_pos hkey]
    refine ⟨fun c hc => ?_, balanced_of_isUnbracketed fun c hc => ?_⟩
    · rcases mem_of_isMemberKey hkey hc with hc | rfl
      · exact isTypeChar_of_isWordChar hc
      · decide
    · rcases mem_of_isMemberKey hkey hc with hc | rfl
      · exact isUnbracketed_of_isWordChar hc
      · rfl
  · have hplain := h.resolve_left hkey
    have hquoted : name.toList.flatMap (Json.quotedChar true) = name.toList := by
      rw [List.flatMap_congr fun c hc => quotedChar_of_isPlainKeyChar (hplain c hc)]
      simp
    rw [memberKey, if_neg hkey, Json.quoted, String.toList_ofList, Json.quotedChars, hquoted]
    refine isPart_quoted fun c hc => ?_
    have hc := hplain c hc
    simp only [isPlainKeyChar, Bool.and_eq_true, bne_iff_ne] at hc
    exact ⟨hc.1.1, hc.2⟩

theorem exists_of_not_hasPlainKey {name : String} (h : hasPlainKey name = false) :
    ∃ c ∈ (memberKey name).toList, isTypeChar c = false := by
  rw [hasPlainKey, Bool.or_eq_false_iff, List.all_eq_false] at h
  obtain ⟨hkey, c, hc, hplain⟩ := h
  obtain ⟨d, hd, hchar⟩ := exists_of_not_isPlainKeyChar (Bool.not_eq_true _ ▸ hplain)
  refine ⟨d, ?_, hchar⟩
  rw [memberKey, if_neg (by simp [hkey]), Json.quoted, String.toList_ofList, Json.quotedChars]
  have hmem := List.mem_flatMap.2 ⟨c, hc, hd⟩
  simp [hmem]

theorem isPart_of_hasSlot {isType : String → Prop}
    (htypes : ∀ t, isType t → TypeText.normalize t = t)
    {name member : String} (h : HasSlot isType name member) (hkey : hasPlainKey name = true) :
    IsPart member.toList := by
  obtain ⟨mark, hmark, type, htype, rfl⟩ := h
  have hmark : IsPart (mark ++ ": ").toList := by
    simp only [List.mem_cons, List.not_mem_nil, or_false] at hmark
    rcases hmark with rfl | rfl <;> exact isPart_of_all rfl rfl
  have htype := isPart_of_isUsable (isUsable_of_normalize_eq (htypes type htype))
  have hmember := ((isPart_memberKey hkey).append hmark).append htype
  simpa using hmember

theorem trimmed_objectText (members : List String) :
    Text.trimmed (objectText members) = objectText members := by
  have hopen : Text.IsTrimmed ['\x7b'] := Text.isTrimmed_of_all (by decide)
  have hclose : Text.IsTrimmed ['\x7d'] := Text.isTrimmed_of_all (by decide)
  have htext : (objectText members).toList =
      ['\x7b'] ++ (' ' :: (("; ".intercalate members).toList ++ [' '])) ++ ['\x7d'] := by
    simp [objectText]
  rw [Text.trimmed, Text.trim_eq_self, String.ofList_toList]
  rw [htext]
  exact hopen.append (by simp) hclose (by simp) _

theorem objectText_ne_empty (members : List String) : objectText members ≠ "" := by
  intro h
  have hlist := congrArg String.toList h
  simp [objectText] at hlist

theorem objectText_ne_unknown (members : List String) : objectText members ≠ "unknown" := by
  intro h
  have hlist := congrArg String.toList h
  simp [objectText] at hlist

/-- An object type whose members can be part of types passes the check. -/
theorem normalize_objectText {members : List String} (h : ∀ m ∈ members, IsPart m.toList) :
    TypeText.normalize (objectText members) = objectText members := by
  have hblank : IsPart [' '] := isPart_of_all rfl rfl
  have hbody := (hblank.append (IsPart.intercalate "; " (isPart_of_all rfl rfl) h)).append
    hblank
  have htext : (objectText members).toList =
      '\x7b' :: ([' '] ++ ("; ".intercalate members).toList ++ [' '] ++ ['\x7d']) := by
    simp [objectText]
  have hchars : ∀ c ∈ (objectText members).toList, isTypeChar c = true := by
    rw [htext]
    exact List.forall_mem_cons.2 ⟨by decide, List.forall_mem_append.2
      ⟨hbody.chars, List.forall_mem_singleton.2 (by decide)⟩⟩
  have hbalanced : isBalanced (objectText members).toList = true := by
    have hall := hbody.balanced.enclosed (p := ('\x7b', '\x7d')) (by decide) [] []
    rw [List.append_nil] at hall
    rw [isBalanced, htext]
    exact hall
  have husable : isUsable (objectText members) = true := by
    simp only [isUsable, Bool.or_eq_true, Bool.and_eq_true, List.all_eq_true]
    exact .inr ⟨hchars, hbalanced⟩
  simp [TypeText.normalize, trimmed_objectText, objectText_ne_empty, husable]

/-- An object type with a character that is none of types does not pass the check. -/
theorem normalize_objectText_eq_unknown {members : List String} {m : String} (hm : m ∈ members)
    {c : Char} (hc : c ∈ m.toList) (htype : isTypeChar c = false) :
    TypeText.normalize (objectText members) = "unknown" := by
  have hmem : c ∈ (objectText members).toList := by
    have hjoined := (standsIn_intercalate "; " hm).subset hc
    simp only [objectText, String.toList_append, List.mem_append]
    exact .inl (.inr hjoined)
  have husable : isUsable (objectText members) = false := by
    by_contra husable
    rw [Bool.not_eq_false] at husable
    rw [isTypeChar_of_isUsable husable c hmem] at htype
    cases htype
  simp [TypeText.normalize, trimmed_objectText, husable]

/-- The declared type of an input is its shape if all keys of the shape can be part of types, and
`unknown` if not. -/
theorem inputType_of_slots {e : Endpoint} {isType : String → Prop} {members : List String}
    (htypes : ∀ t, isType t → TypeText.normalize t = t)
    (hshape : e.inputShape = some (objectText members))
    (hslots : List.Forall₂ (HasSlot isType) e.slotNames members) :
    e.inputType = if e.slotNames.all hasPlainKey then objectText members else "unknown" := by
  have hdeclared : e.inputType = TypeText.normalize (objectText members) := by
    rw [inputType, declaredInput, hshape]
    simp [objectText_ne_empty]
  rw [hdeclared]
  split
  · next hkeys =>
    rw [List.all_eq_true] at hkeys
    refine normalize_objectText fun m hm => ?_
    obtain ⟨f, hf, hslot⟩ := Outcome.exists_of_forall₂ hslots hm
    exact isPart_of_hasSlot htypes hslot (hkeys f hf)
  · next hkeys =>
    rw [Bool.not_eq_true, List.all_eq_false] at hkeys
    obtain ⟨f, hf, hkey⟩ := hkeys
    obtain ⟨m, hm, mark, -, type, -, rfl⟩ := Outcome.exists_of_forall₂ hslots.flip hf
    obtain ⟨c, hc, hchar⟩ := exists_of_not_hasPlainKey (Bool.not_eq_true _ ▸ hkey)
    exact normalize_objectText_eq_unknown hm (by simp [hc]) hchar

/-- **Inputs that keep their type.** An endpoint with several slots has a shape, made of the
parameters and the body of an operation. If the types of the slots pass the check as they are, the
declared type of the input is the shape if and only if every name stands bare, or between quotes
with nothing but characters of types that need no escape; with any other name it is `unknown`. -/
theorem exists_inputs_and_inputType_eq {document : Value} {a : Api}
    (h : ofDocument document = .ok a) {e : Endpoint} (he : e ∈ a.endpoints)
    (hslots : 2 ≤ e.inputSlots) :
    (∃ item operation ps bodyType, IsOperation document item operation ∧
      parametersOf document item operation = .ok ps ∧
      (∀ t ∈ bodyType, ∃ schema, bodySchema document (Value.field operation "requestBody") =
        .ok schema ∧ typeText schema = .ok t) ∧ e.HasInputs ps bodyType) ∧
    ∀ ps bodyType, e.HasInputs ps bodyType →
      (∀ t, IsSlotType ps bodyType t → TypeText.normalize t = t) →
      ∃ shape, e.inputShape = some shape ∧ shape ≠ "unknown" ∧
        e.inputType = if e.slotNames.all hasPlainKey then shape else "unknown" := by
  constructor
  · obtain ⟨d, name, path, method, item, operation, rfl, hbuild, hoperation⟩ :=
      exists_operation_of_mem h he
    obtain ⟨_, _, ps, bodyType, -, hparameters, hbody, hinputs⟩ := exists_inputs_of_build hbuild
    exact ⟨item, operation, ps, bodyType, hoperation, hparameters, hbody, hinputs.path,
      hinputs.query, hinputs.body, hinputs.shape⟩
  · intro ps bodyType hinputs htypes
    obtain ⟨shape, hsome, hshape⟩ := hinputs.shape hslots
    obtain ⟨-, -, members, rfl, hmembers⟩ := slots_of_inputShapeText hinputs hshape
    exact ⟨_, hsome, objectText_ne_unknown members, inputType_of_slots htypes hsome hmembers⟩

/-- The parameters of the order that is changed. -/
def changedParameters : List Parameter :=
  [("id", "path"), ("page-size", "query")].map fun p =>
    ⟨.str p.1, .str p.2, ((textParameter p.1 p.2).entries?).getD []⟩

/-- The name of its query field stands between quotes, and passes the check. -/
theorem inputType_changedOrder : changedOrder.inputType =
    "\x7b id: string; \"page-size\"?: string; body: unknown \x7d" := by
  have hinputs : changedOrder.HasInputs changedParameters (some "unknown") :=
    ⟨.cons rfl .nil, .cons rfl .nil, rfl, fun _ => ⟨_, rfl, by decide +kernel⟩⟩
  have htypes : ∀ t, IsSlotType changedParameters (some "unknown") t →
      TypeText.normalize t = t := by
    rintro t (⟨⟨⟩⟩ | ⟨p, hp, -, ht⟩)
    · decide
    · have hall : ∀ p ∈ changedParameters, typeText p.schema = .ok "string" := by decide +kernel
      rw [hall p hp] at ht
      cases ht
      decide
  obtain ⟨-, htype⟩ := exists_inputs_and_inputType_eq ofDocument_changeOrder
    (List.mem_singleton_self changedOrder) (by decide)
  obtain ⟨shape, hshape, -, htype⟩ := htype changedParameters _ hinputs htypes
  cases hshape
  rw [htype]
  exact if_pos (by decide)

/-- An order that is looked up by a query field with a slash in its name. -/
def findOrder : Value :=
  oneOperation "/orders/{id}" "get" [
    ("parameters", .list [textParameter "id" "path", textParameter "page/size" "query"])]

def foundOrder : Endpoint :=
  { operationName := "order", exportName := "defaultOrder",
    builderName := "buildDefaultOrderSpec", method := "GET", path := "/orders/{id}",
    inputTypeName := "OrderInput",
    inputShape := some "\x7b id: string; \"page/size\"?: string \x7d",
    queryFields := ["page/size"], pathFields := ["id"], supportsQuery := true,
    supportsMutation := false }

/-- The types of both slots pass the check, and the type of the input does not. -/
theorem inputType_foundOrder : ofDocument findOrder = .ok { endpoints := [foundOrder] } ∧
    TypeText.normalize "string" = "string" ∧ foundOrder.inputSlots = 2 ∧
    foundOrder.inputType = "unknown" := by
  decide +kernel

end Endpoint
end ApiScribe
