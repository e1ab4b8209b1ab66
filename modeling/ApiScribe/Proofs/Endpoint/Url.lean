import ApiScribe.Proofs.Endpoint.Pieces
import ApiScribe.Proofs.Json.Quoted
import ApiScribe.Proofs.Template.Parts
import ApiScribe.Proofs.TypeText.Names

/-! The path of a request as a template literal. Its value is the path with the values of the fields
in their places if and only if no other character of the path is special in a literal. -/
namespace ApiScribe
namespace Endpoint

/-- The names of the path fields hold no braces and no backquotes, and none of them is the
expression for a field before it. -/
structure HasMarks (e : Endpoint) (guarded : Bool) : Prop where
  plain : ∀ f ∈ e.pathFields, IsPlainName f.toList
  apart : e.pathFields.Pairwise fun f g => e.accessor f guarded ≠ g

theorem isPlainName_accessor (e : Endpoint) (guarded : Bool) {f : String}
    (h : IsPlainName f.toList) : IsPlainName (e.accessor f guarded).toList := by
  unfold accessor
  split
  · decide
  · split
    · rw [String.toList_append, String.toList_append]
      refine IsPlainName.append (IsPlainName.append (by decide) ?_) h
      cases guarded <;> decide
    · rw [String.toList_append, String.toList_append, String.toList_append]
      refine IsPlainName.append (IsPlainName.append (IsPlainName.append (by decide) ?_) ?_)
        (by decide)
      · cases guarded <;> decide
      · intro c hc
        rcases Json.mem_quoted hc with hc | hc | hc
        · exact h c hc
        · rintro hmem
          have hall : ['{', '}', '\x60'].all (!·.isAlphanum) = true := by decide
          have hnot := List.all_eq_true.1 hall c hmem
          rw [hc] at hnot
          cases hnot
        · exact (by decide : IsPlainName ['"', '\\']) c hc

/-- The path of a request is written piece by piece. -/
theorem url_eq_texts {e : Endpoint} {guarded : Bool} (hfields : e.pathFields ≠ [])
    (hinput : e.hasInput = true) (hmarks : e.HasMarks guarded) :
    (e.url guarded).toList = '\x60' :: (texts (e.accessor · guarded) e.pieces ++ ['\x60']) := by
  have hfold : (e.pathFields.foldl (e.substitute guarded) (String.ofList
        (texts (e.accessor · guarded) (piecesFrom [] 0 e.path.toList)))).toList =
      texts (e.accessor · guarded) e.pieces :=
    @foldl_texts [] e guarded e.pathFields hmarks.plain
      (fun f hf => isPlainName_accessor e guarded (hmarks.plain f hf)) hmarks.apart e.path.toList
  rw [texts_no_fields] at hfold
  have hescaped : "\x60".toList = ['\x60'] ∧ "\\\x60".toList = ['\\', '\x60'] := by decide
  rw [url, if_neg (by simp [hfields, hinput]), String.toList_append, String.toList_append,
    Text.replaceString, hescaped.1, hescaped.2, hfold]
  rfl

/-- The characters of a bare name. -/
theorem mem_of_isIdentifier {f : String} (h : TypeText.isIdentifier f = true) {c : Char}
    (hc : c ∈ f.toList) : TypeText.isNameChar c = true ∨ c = '\n' := by
  rw [TypeText.isIdentifier, TypeText.chomp] at h
  split at h
  · next hlast =>
    rw [← List.dropLast_append_getLast? '\n' hlast, List.mem_append, List.mem_singleton] at hc
    exact hc.imp_left (TypeText.isNameChar_of_isName h c)
  · exact .inl (TypeText.isNameChar_of_isName h c hc)

theorem not_mem_of_isIdentifier {f : String} (h : TypeText.isIdentifier f = true) {c : Char}
    (hname : TypeText.isNameChar c = false) (hline : c ≠ '\n') : c ∉ f.toList := by
  intro hc
  rcases mem_of_isIdentifier h hc with hc | rfl
  · rw [hname] at hc
    cases hc
  · exact hline rfl

/-- The expression for a field can stand inside another expression. -/
theorem stays_accessor (e : Endpoint) (guarded : Bool) (f : String) :
    Template.Stays none (e.accessor f guarded).toList := by
  unfold accessor
  split
  · exact Template.stays_none (by decide)
  · split
    · next hname =>
      have hplain : f.toList.all (· ∉ ['{', '}', '"', '\'']) = true := by
        rw [List.all_eq_true]
        intro c hc
        rcases mem_of_isIdentifier hname hc with hc | rfl
        · rw [decide_eq_true_iff]
          rintro hmem
          have hall : ['{', '}', '"', '\''].all (!TypeText.isNameChar ·) = true := by decide
          have hnot := List.all_eq_true.1 hall c hmem
          rw [hc] at hnot
          cases hnot
        · decide
      rw [String.toList_append, String.toList_append]
      refine ((Template.stays_none (by decide)).append (Template.stays_none ?_)).append
        (Template.stays_none hplain)
      cases guarded <;> decide
    · rw [String.toList_append, String.toList_append, String.toList_append]
      refine (((Template.stays_none (by decide)).append (Template.stays_none ?_)).append
        (Template.stays_quoted f)).append (Template.stays_none (by decide))
      cases guarded <;> decide

/-- A bare name is never written like a quoted one. -/
theorem member_ne_quoted {f : String} (h : TypeText.isIdentifier f = true) (guarded : Bool)
    (g : String) : "input" ++ (if guarded then "?." else ".") ++ f ≠
      "input" ++ (if guarded then "?.[" else "[") ++ Json.quoted g ++ "]" := by
  intro heq
  have hlists := congrArg String.toList heq
  have hbracket := not_mem_of_isIdentifier h (by decide : TypeText.isNameChar '[' = false)
    (by decide)
  cases guarded
  · simp at hlists
  · have hf : f.toList = '[' :: ((Json.quoted g).toList ++ [']']) := by simpa using hlists
    rw [hf] at hbracket
    exact hbracket List.mem_cons_self

/-- Different path fields have different expressions. -/
theorem accessor_injOn {e : Endpoint} {guarded : Bool} {f g : String} (hf : f ∈ e.pathFields)
    (hg : g ∈ e.pathFields) (h : e.accessor f guarded = e.accessor g guarded) : f = g := by
  unfold accessor at h
  by_cases hslots : e.inputSlots = 1
  · have hlength : e.pathFields.length ≤ 1 := by
      unfold inputSlots at hslots
      omega
    match hfields : e.pathFields, hlength with
    | [], _ =>
      rw [hfields] at hf
      cases hf
    | [x], _ =>
      rw [hfields, List.mem_singleton] at hf hg
      rw [hf, hg]
  · rw [if_neg hslots, if_neg hslots] at h
    by_cases hfname : TypeText.isIdentifier f = true <;>
      by_cases hgname : TypeText.isIdentifier g = true
    · rw [if_pos hfname, if_pos hgname] at h
      exact (String.append_right_inj _).1 h
    · rw [if_pos hfname, if_neg hgname] at h
      exact absurd h (member_ne_quoted hfname guarded g)
    · rw [if_neg hfname, if_pos hgname] at h
      exact absurd h.symm (member_ne_quoted hgname guarded f)
    · rw [if_neg hfname, if_neg hgname] at h
      exact Json.quoted_injective ((String.append_right_inj _).1 ((String.append_left_inj _).1 h))

/-- Pieces in which no character is special in a literal: no backslash, no carriage return, and no
dollar sign in front of an opening brace. -/
def IsPlainPath : List Piece → Prop
  | [] => True
  | p :: ps => p ≠ .char '\\' ∧ p ≠ .char '\r' ∧
    (p = .char '$' → ps.head? ≠ some (.char '{')) ∧ IsPlainPath ps

instance decidableIsPlainPath : (ps : List Piece) → Decidable (IsPlainPath ps)
  | [] => inferInstanceAs (Decidable True)
  | _ :: ps =>
    have := decidableIsPlainPath ps
    inferInstanceAs (Decidable (_ ∧ _ ∧ (_ → _) ∧ _))

section
variable (expression : String → String)

/-- The parts that a piece is read as. -/
def Piece.parts : Piece → List Template.Part
  | .char c => Template.raw c
  | .field f => [.expression (expression f).toList]

/-- The parts that pieces are read as. -/
def parts (ps : List Piece) : List Template.Part := ps.flatMap (Piece.parts expression)

@[simp] theorem parts_cons (p : Piece) (ps : List Piece) :
    parts expression (p :: ps) = p.parts expression ++ parts expression ps := List.flatMap_cons

variable {expression}

/-- What follows a dollar sign is no opening brace, unless it is one in the path. -/
theorem exists_texts_cons {ps : List Piece} (h : ps.head? ≠ some (.char '{')) :
    ∃ c cs, texts expression ps ++ ['\x60'] = c :: cs ∧ c ≠ '{' := by
  cases ps with
  | nil => exact ⟨_, _, rfl, by decide⟩
  | cons p ps =>
    cases p with
    | field f => exact ⟨_, _, rfl, by decide⟩
    | char c =>
      rw [texts_cons, Piece.text]
      split
      · exact ⟨_, _, rfl, by decide⟩
      · refine ⟨_, _, rfl, ?_⟩
        rintro rfl
        exact h rfl

theorem read_dollar_texts {ps : List Piece} (h : ps.head? ≠ some (.char '{')) :
    Template.read .text ('$' :: (texts expression ps ++ ['\x60'])) =
      (Template.read .text (texts expression ps ++ ['\x60'])).map (Template.raw '$' ++ ·) := by
  obtain ⟨c, cs, hcs, hc⟩ := @exists_texts_cons expression ps h
  rw [Template.read_dollar, hcs, Template.read_dollar_cons hc]

/-- A piece that is not special is read as its parts. -/
theorem read_piece {p : Piece} {ps : List Piece}
    (hstays : ∀ f, p = .field f → Template.Stays none (expression f).toList)
    (hbackslash : p ≠ .char '\\') (hreturn : p ≠ .char '\r')
    (hdollar : p = .char '$' → ps.head? ≠ some (.char '{')) :
    Template.read .text (texts expression (p :: ps) ++ ['\x60']) =
      (Template.read .text (texts expression ps ++ ['\x60'])).map (p.parts expression ++ ·) := by
  rw [texts_cons, List.append_assoc]
  cases p with
  | field f =>
    rw [Piece.text, List.cons_append, List.cons_append, List.append_assoc, List.singleton_append,
      Template.read_substitution (hstays f rfl)]
    rfl
  | char c =>
    rw [Piece.text]
    split
    · next hc =>
      subst hc
      exact Template.read_backquote _
    · next hc =>
      by_cases hd : c = '$'
      · subst hd
        exact read_dollar_texts (hdollar rfl)
      · refine Template.read_text_cons ?_ _
        simp_all

/-- Pieces that are not special are read as their parts. -/
theorem read_texts {ps : List Piece}
    (hstays : ∀ f, .field f ∈ ps → Template.Stays none (expression f).toList)
    (h : IsPlainPath ps) :
    Template.read .text (texts expression ps ++ ['\x60']) = some (parts expression ps) := by
  induction ps with
  | nil => rfl
  | cons p ps ih =>
    obtain ⟨hbackslash, hreturn, hdollar, hplain⟩ := h
    rw [read_piece (fun f hf => hstays f (hf ▸ List.mem_cons_self)) hbackslash hreturn hdollar,
      ih (fun f hf => hstays f (List.mem_cons_of_mem p hf)) hplain, parts_cons]
    rfl

theorem mem_parts {ps : List Piece} {text : List Char}
    (h : .expression text ∈ parts expression ps) :
    ∃ f, .field f ∈ ps ∧ text = (expression f).toList := by
  obtain ⟨p, hp, hmem⟩ := List.mem_flatMap.1 h
  cases p with
  | char c =>
    obtain ⟨_, -, hu⟩ := List.mem_map.1 hmem
    cases hu
  | field f =>
    cases List.mem_singleton.1 hmem
    exact ⟨f, hp, rfl⟩

/-- Whatever the pieces of a literal are read as, it is no longer than their parts, if backquotes
stay out of expressions. -/
theorem weight_read_texts {ps : List Piece} {m : Template.Mode} {out : List Template.Part}
    (h : Template.read m (texts expression ps ++ ['\x60']) = some out)
    (hout : ∀ text, .expression text ∈ out → '\x60' ∉ text) :
    Template.weight out ≤ m.pending + Template.weight (parts expression ps) := by
  induction ps generalizing m out with
  | nil => exact Template.weight_read_end h
  | cons p ps ih =>
    have hpiece : ∃ m' front back,
        Template.read m' (texts expression ps ++ ['\x60']) = some back ∧ out = front ++ back ∧
          Template.weight front + m'.pending ≤
            m.pending + Template.weight (p.parts expression) := by
      rw [texts_cons, List.append_assoc] at h
      cases p with
      | field f =>
        have hsize : Template.size (Piece.text expression (.field f)) =
            Template.weight (Piece.parts expression (.field f)) := by
          have hsigns : (Template.charUnits '$').length = 1 ∧
              (Template.charUnits '{').length = 1 ∧ Template.size ['}'] = 1 := by decide
          rw [Piece.text, Template.size_cons, Template.size_cons, Template.size_append,
            hsigns.1, hsigns.2.1, hsigns.2.2, Piece.parts, Template.weight_cons,
            Template.weight_nil, Template.Part.weight]
          omega
        rw [← hsize]
        exact Template.weight_read_append h
      | char c =>
        rw [Piece.text] at h
        split at h
        · next hc =>
          subst hc
          exact Template.weight_read_backquote h (by simp) hout
        · have hsize : Template.size [c] = Template.weight (Piece.parts expression (.char c)) := by
            rw [Piece.parts, Template.raw, Template.weight_units, Template.size_cons]
            rfl
          rw [← hsize]
          exact Template.weight_read_append h
    obtain ⟨m', front, back, hback, rfl, hweight⟩ := hpiece
    have hrest := ih hback fun text htext => hout text (List.mem_append_right _ htext)
    rw [parts_cons, Template.weight_append, Template.weight_append]
    omega

/-- A backslash is lost, and what follows it does not make up for it. -/
theorem read_backslash_ne {ps : List Piece}
    (hplain : ∀ f, .field f ∈ ps → '\x60' ∉ (expression f).toList) :
    Template.read .text (texts expression (.char '\\' :: ps) ++ ['\x60']) ≠
      some (parts expression (.char '\\' :: ps)) := by
  intro h
  have hescape : Template.read .escape (texts expression ps ++ ['\x60']) =
      some (Template.raw '\\' ++ parts expression ps) := by
    rw [texts_cons, parts_cons] at h
    rwa [← Template.read_backslash]
  have hout : ∀ text, .expression text ∈ Template.raw '\\' ++ parts expression ps →
      '\x60' ∉ text := by
    intro text htext
    rcases List.mem_append.1 htext with hraw | hparts
    · obtain ⟨_, -, hunit⟩ := List.mem_map.1 hraw
      cases hunit
    · obtain ⟨f, hf, rfl⟩ := mem_parts hparts
      exact hplain f hf
  have hweight := weight_read_texts hescape hout
  have hraw : Template.weight (Template.raw '\\') = 1 := by decide
  rw [Template.weight_append, hraw] at hweight
  simp only [Template.Mode.pending] at hweight
  omega

/-- A dollar sign in front of an opening brace starts an expression. -/
theorem read_dollar_brace_ne (ps : List Piece) :
    Template.read .text (texts expression (.char '$' :: .char '{' :: ps) ++ ['\x60']) ≠
      some (parts expression (.char '$' :: .char '{' :: ps)) := by
  intro h
  have hbrace := (Template.read_dollar_brace (texts expression ps ++ ['\x60'])).symm.trans h
  obtain ⟨more, rest, heq⟩ := Template.head_read_expression hbrace
  cases heq

/-- If pieces are read as their parts, none of them is special. -/
theorem isPlainPath_of_read {ps : List Piece}
    (hstays : ∀ f, .field f ∈ ps → Template.Stays none (expression f).toList)
    (hplain : ∀ f, .field f ∈ ps → '\x60' ∉ (expression f).toList)
    (h : Template.read .text (texts expression ps ++ ['\x60']) = some (parts expression ps)) :
    IsPlainPath ps := by
  induction ps with
  | nil => trivial
  | cons p ps ih =>
    have hplains := fun f hf => hplain f (List.mem_cons_of_mem p hf)
    have hbackslash : p ≠ .char '\\' := by
      rintro rfl
      exact read_backslash_ne hplains h
    have hreturn : p ≠ .char '\r' := by
      rintro rfl
      obtain ⟨s, back, hs, -, heq⟩ := Template.read_cons_eq_some h
      cases hs
      cases heq
    have hdollar : p = .char '$' → ps.head? ≠ some (.char '{') := by
      rintro rfl hhead
      obtain ⟨qs, rfl⟩ := List.head?_eq_some_iff.1 hhead
      exact read_dollar_brace_ne qs h
    refine ⟨hbackslash, hreturn, hdollar,
      ih (fun f hf => hstays f (List.mem_cons_of_mem p hf)) hplains ?_⟩
    rw [read_piece (fun f hf => hstays f (hf ▸ List.mem_cons_self)) hbackslash hreturn hdollar,
      parts_cons] at h
    obtain ⟨out, hout, heq⟩ := Option.map_eq_some_iff.1 h
    rw [hout, List.append_cancel_left heq]

end

/-- The field that an expression in the path of a request stands for. -/
def fieldOf? (e : Endpoint) (guarded : Bool) (text : List Char) : Option String :=
  e.pathFields.find? fun f => (e.accessor f guarded).toList = text

theorem fieldOf?_eq_some {e : Endpoint} {guarded : Bool} {text : List Char} {f : String}
    (h : e.fieldOf? guarded text = some f) :
    f ∈ e.pathFields ∧ text = (e.accessor f guarded).toList := by
  have hfound := List.find?_some h
  exact ⟨List.mem_of_find?_eq_some h, (of_decide_eq_true hfound).symm⟩

theorem fieldOf?_accessor {e : Endpoint} {guarded : Bool} {f : String} (hf : f ∈ e.pathFields) :
    e.fieldOf? guarded (e.accessor f guarded).toList = some f := by
  cases hfound : e.fieldOf? guarded (e.accessor f guarded).toList with
  | none => exact absurd (List.find?_eq_none.1 hfound f hf) (by simp)
  | some g =>
    obtain ⟨hg, htext⟩ := fieldOf?_eq_some hfound
    rw [accessor_injOn hf hg (String.toList_inj.1 htext)]

/-- The parts of pieces have the values of the pieces. -/
theorem valueWith_parts {e : Endpoint} {guarded : Bool} (values : String → List UInt16)
    {ps : List Piece} (h : ∀ f, .field f ∈ ps → f ∈ e.pathFields) :
    Template.valueWith (e.fieldOf? guarded) values (parts (e.accessor · guarded) ps) =
      some (ps.flatMap (Piece.value values)) := by
  induction ps with
  | nil => rfl
  | cons p ps ih =>
    have hrest := ih fun f hf => h f (List.mem_cons_of_mem p hf)
    rw [parts_cons, List.flatMap_cons]
    cases p with
    | char c =>
      rw [Piece.parts, Template.raw, Template.valueWith, Template.evaluateParts_units]
      rw [Template.valueWith] at hrest
      rw [hrest]
      rfl
    | field f =>
      exact Template.valueWith_expression_eq_some.2
        ⟨f, _, fieldOf?_accessor (h f List.mem_cons_self), hrest, rfl⟩

/-- The path of a request, read as a template literal with the expressions for the fields standing
for their values, is the path with the values of all fields in the places of their marks, for all
values, if and only if no character of the path is special in a literal: it holds no backslash, no
carriage return and no dollar sign in front of an opening brace. -/
theorem evaluate_url_eq_filled_iff {e : Endpoint} {guarded : Bool} (hfields : e.pathFields ≠ [])
    (hinput : e.hasInput = true) (hmarks : e.HasMarks guarded) :
    (∀ values : String → List UInt16,
      Template.evaluate (fun text => (e.fieldOf? guarded text).map values) (e.url guarded) =
        some (e.filled values)) ↔ IsPlainPath e.pieces := by
  have hmem : ∀ f, .field f ∈ e.pieces → f ∈ e.pathFields := fun f hf => mem_of_field_mem hf
  have hstays : ∀ f, .field f ∈ e.pieces → Template.Stays none (e.accessor f guarded).toList :=
    fun f _ => stays_accessor e guarded f
  have hparts? : Template.parts? (e.url guarded) =
      Template.read .text (texts (e.accessor · guarded) e.pieces ++ ['\x60']) := by
    rw [Template.parts?, url_eq_texts hfields hinput hmarks]
    rfl
  constructor
  · intro h
    have hread : ∃ out, Template.parts? (e.url guarded) = some out ∧ ∀ values,
        Template.valueWith (e.fieldOf? guarded) values out = some (e.filled values) := by
      obtain ⟨out, hout, -⟩ := Option.bind_eq_some_iff.1 (h fun _ => [])
      refine ⟨out, hout, fun values => ?_⟩
      obtain ⟨out', hout', hvalue⟩ := Option.bind_eq_some_iff.1 (h values)
      rw [hout] at hout'
      rwa [Option.some.inj hout']
    obtain ⟨out, hout, hvalues⟩ := hread
    have heq : out = parts (e.accessor · guarded) e.pieces := by
      refine Template.eq_of_valueWith (fun s t f hs ht => ?_) fun values =>
        ⟨_, hvalues values, valueWith_parts values hmem⟩
      rw [(fieldOf?_eq_some hs).2, (fieldOf?_eq_some ht).2]
    refine isPlainPath_of_read hstays (fun f hf => ?_) (hparts?.symm.trans (hout.trans (heq ▸ rfl)))
    exact (isPlainName_accessor e guarded (hmarks.plain f (hmem f hf))).backquote_not_mem
  · intro h values
    rw [Template.evaluate, hparts?, read_texts hstays h, Option.bind_some]
    exact valueWith_parts values hmem

/-- A file of a folder, both chosen by fields. -/
def folderFile : Endpoint :=
  { operationName := "read", method := "GET", path := "/folders/{id}/`raw`/{file-name}$",
    inputTypeName := "ReadInput", pathFields := ["id", "file-name"] }

/-- The path of the file holds the values of both fields. -/
theorem evaluate_url_folderFile :
    folderFile.url false =
        "`/folders/${input.id}/\\`raw\\`/$\x7binput[\"file-name\"]\x7d$`" ∧
      Template.evaluate (fun text => (folderFile.fieldOf? false text).map fun f =>
          (if f = "id" then "7" else "a.txt").toList.flatMap Template.charUnits)
        (folderFile.url false) =
        some ("/folders/7/`raw`/a.txt$".toList.flatMap Template.charUnits) := by
  refine ⟨by decide, ?_⟩
  have hplain : IsPlainPath folderFile.pieces := by decide
  rw [(evaluate_url_eq_filled_iff (by decide) (by decide) ⟨by decide, by decide⟩).2 hplain]
  decide

/-- A file whose field stands behind a backslash. -/
def backslashFile : Endpoint :=
  { operationName := "read", method := "GET", path := "/files\\{id}", inputTypeName := "string",
    pathFields := ["id"] }

/-- Behind the backslash the substitution is plain text. -/
theorem evaluate_url_backslashFile :
    backslashFile.url false = "`/files\\${input}`" ∧
      Template.evaluate (fun text => (backslashFile.fieldOf? false text).map fun _ => [55])
        (backslashFile.url false) ≠ some (backslashFile.filled fun _ => [55]) := by
  decide

end Endpoint
end ApiScribe
