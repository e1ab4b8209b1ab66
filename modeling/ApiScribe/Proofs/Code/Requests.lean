import ApiScribe.Proofs.Code.Reading
import ApiScribe.Proofs.Endpoint.Url

/-! The expressions that generated code makes of the argument. The address, the query and the body of
a request read the argument only if the endpoint has an input, so they can stand wherever it is
declared then. The address is code of its own only if the text of the path stays in its literal. -/
namespace ApiScribe
namespace Code

open Endpoint
open TypeText (isWordChar)

variable {places next outer : List Place} {e : Endpoint} {f : String} {guarded : Bool}

/-- The text of a name, and the line feed that may follow it. -/
theorem words_of_isIdentifier (h : TypeText.isIdentifier f = true) :
    ∃ w lead, w ≠ [] ∧ (∀ c ∈ w, isWordChar c = true) ∧ (lead = [] ∨ lead = ['\n']) ∧
      f.toList = w ++ lead := by
  have hname : ∀ w, TypeText.isName w = true → w ≠ [] ∧ ∀ c ∈ w, isWordChar c = true := by
    intro w hw
    refine ⟨?_, fun c hc => ?_⟩
    · rintro rfl
      cases hw
    · have hchar := TypeText.isNameChar_of_isName hw c hc
      rw [TypeText.isNameChar] at hchar
      rw [isWordChar, hchar, Bool.true_or]
  rw [TypeText.isIdentifier, TypeText.chomp] at h
  split at h
  · next hlast =>
    obtain ⟨hne, hw⟩ := hname _ h
    exact ⟨_, _, hne, hw, .inr rfl, (List.dropLast_append_getLast? '\n' hlast).symm⟩
  · obtain ⟨hne, hw⟩ := hname _ h
    exact ⟨_, [], hne, hw, .inl rfl, (List.append_nil _).symm⟩

/-- Behind a point a name passes. -/
theorem passes_member (hcode : isCode places = true) (h : TypeText.isIdentifier f = true) :
    Passes ('.' :: f.toList) places := by
  obtain ⟨w, lead, hne, hw, hlead, hf⟩ := words_of_isIdentifier h
  have hdot : step places '.' = some (.dot false :: places) := by
    obtain rfl | ⟨outer, rfl | rfl | rfl | ⟨declares, rfl⟩ | rfl⟩ := isCode_cases hcode <;> rfl
  have hline : step places '\n' = some places := by
    obtain rfl | ⟨outer, rfl | rfl | rfl | ⟨declares, rfl⟩ | rfl⟩ := isCode_cases hcode <;> rfl
  intro c cs hc
  rw [hf, List.cons_append, List.append_assoc, read, hdot, Option.bind_some]
  rcases hlead with rfl | rfl
  · exact read_member hcode hw hne cs hc
  · rw [List.singleton_append, read_member hcode hw hne _ (by decide), read, hline]
    rfl

/-- The argument passes where it is declared. -/
theorem passes_argument (hcode : isCode places = true) (hdeclared : declared places = true) :
    Passes argument places :=
  passes_word hcode (List.all_eq_true.1 (by decide)) (fun _ => hdeclared) (by decide)

/-- The expression for a field passes where the argument is declared. -/
theorem passes_accessor (hcode : isCode places = true) (hdeclared : declared places = true)
    (e : Endpoint) (f : String) (guarded : Bool) : Passes (e.accessor f guarded).toList places := by
  have hinput := passes_argument hcode hdeclared
  have hquestion : Leads ['?'] places places := by
    obtain rfl | ⟨outer, rfl | rfl | rfl | ⟨declares, rfl⟩ | rfl⟩ := isCode_cases hcode <;> rfl
  have hopen : Leads ['['] places (.bracket ']' :: places) ∧
      Leads ['?', '.', '['] places (.bracket ']' :: places) := by
    obtain rfl | ⟨outer, rfl | rfl | rfl | ⟨declares, rfl⟩ | rfl⟩ := isCode_cases hcode <;>
      exact ⟨rfl, rfl⟩
  have hquoted : Leads ((Json.quoted f).toList ++ [']']) (.bracket ']' :: places) places :=
    (leads_quoted rfl f).append rfl
  unfold accessor
  split
  · exact hinput
  · split
    · next hname =>
      have hmember := passes_member hcode hname
      rw [String.append_assoc, String.toList_append]
      cases guarded
      · exact hinput.append (by simpa using hmember) (by simp [isWordChar])
      · refine hinput.append ?_ (by simp [isWordChar])
        simpa using hquestion.append_passes hmember
    · rw [String.append_assoc, String.append_assoc, String.toList_append]
      cases guarded
      · refine hinput.append ?_ (by simp [isWordChar])
        simpa using (hopen.1.append hquoted).passes
      · refine hinput.append ?_ (by simp [isWordChar])
        simpa using (hopen.2.append hquoted).passes

/-- The key of a field passes in front of a colon. -/
theorem leads_objectKey (hcode : isCode places = true) (hdeclared : declared places = true)
    (f : String) : Leads ((objectKey f).toList ++ [':', ' ']) places places := by
  have hcolon : Leads [':', ' '] places places ∧ Leads ['\n', ':', ' '] places places := by
    obtain rfl | ⟨outer, rfl | rfl | rfl | ⟨declares, rfl⟩ | rfl⟩ := isCode_cases hcode <;>
      exact ⟨rfl, rfl⟩
  unfold objectKey
  split
  · next hname =>
    obtain ⟨w, lead, -, hw, hlead, hf⟩ := words_of_isIdentifier hname
    have hargument : w = argument → declared places = true := fun _ => hdeclared
    rw [hf, List.append_assoc]
    rcases hlead with rfl | rfl
    · exact (read_code_word hcode hw hargument _ (by decide) (.inr (by decide))).trans hcolon.1
    · exact (read_code_word hcode hw hargument _ (by decide) (.inr (by decide))).trans hcolon.2
  · exact (leads_quoted hcode f).append hcolon.1

/-- Texts that pass are passed one after the other. -/
theorem passes_intercalate {c : Char} {sep : List Char} {ts : List (List Char)}
    (hc : isWordChar c = false) (hsep : Leads (c :: sep) places places)
    (h : ∀ t ∈ ts, Passes t places) : Passes (List.intercalate (c :: sep) ts) places := by
  induction ts with
  | nil => exact (Leads.nil places).passes
  | cons t ts ih =>
    obtain ⟨ht, hts⟩ := List.forall_mem_cons.1 h
    cases ts with
    | nil => simpa using ht
    | cons u us =>
      rw [List.intercalate_cons_cons, List.append_assoc]
      refine ht.append (hsep.append_passes (ih hts)) ?_
      simpa using hc

/-- The object of the query leads nowhere where the argument is declared. -/
theorem leads_query (hcode : isCode places = true)
    (hdeclared : e.hasInput = true → declared places = true) {q : String}
    (hq : e.query? guarded = some q) : Leads q.toList places places := by
  unfold query? at hq
  split at hq
  · cases hq
  · next hsome =>
    cases hq
    have hinput : declared (.bracket '}' :: places) = true := hdeclared (by simp_all)
    have hopen : Leads ['{', ' '] places (.bracket '}' :: places) := by
      obtain rfl | ⟨outer, rfl | rfl | rfl | ⟨declares, rfl⟩ | rfl⟩ := isCode_cases hcode <;> rfl
    have hpair : ∀ f, Passes (objectKey f ++ ": " ++ e.accessor f guarded).toList
        (.bracket '}' :: places) := by
      intro f
      rw [String.toList_append, String.toList_append]
      exact (leads_objectKey rfl hinput f).append_passes (passes_accessor rfl hinput e f guarded)
    have hpairs : Passes (List.intercalate [',', ' ']
        ((e.queryFields.map fun f => objectKey f ++ ": " ++ e.accessor f guarded).map
          String.toList)) (.bracket '}' :: places) := by
      refine passes_intercalate (by decide) rfl fun t ht => ?_
      rw [List.map_map] at ht
      obtain ⟨f, -, rfl⟩ := List.mem_map.1 ht
      exact hpair f
    have hclose : Leads (_ ++ [' ', '}']) (.bracket '}' :: places) places :=
      hpairs.leads (by decide) rfl
    rw [String.toList_append, String.toList_append, String.toList_intercalate, List.append_assoc]
    exact hopen.append hclose

/-- The expression for the body passes. -/
theorem passes_body (hcode : isCode places = true)
    (hdeclared : e.hasInput = true → declared places = true) {b : String}
    (hb : e.body? guarded = some b) : Passes b.toList places := by
  obtain ⟨f, -, rfl⟩ := Option.map_eq_some_iff.1 hb
  split
  · next hinput => exact passes_accessor hcode (hdeclared hinput) e f guarded
  · have hne : "undefined".toList ≠ argument := by decide
    exact passes_word hcode (List.all_eq_true.1 (by decide)) (fun h => absurd h hne) (by decide)

/-- Pieces that stay in their literal: none of them is a backslash, and no brace stands behind a
dollar sign. -/
def StaysInside : List Piece → Prop
  | [] => True
  | p :: ps => p ≠ .char '\\' ∧ (p = .char '$' → ps.head? ≠ some (.char '{')) ∧ StaysInside ps

instance decidableStaysInside : (ps : List Piece) → Decidable (StaysInside ps)
  | [] => inferInstanceAs (Decidable True)
  | _ :: ps =>
    have := decidableStaysInside ps
    inferInstanceAs (Decidable (_ ∧ (_ → _) ∧ _))

/-- The places where the text of a template goes on. -/
def IsTemplate (ps : List Piece) (outer places : List Place) : Prop :=
  places = .template :: outer ∨ places = .dollar :: outer ∧ ps.head? ≠ some (.char '{')

/-- Pieces that stay in their literal lead to its end. -/
theorem leads_texts {ps : List Piece} (h : StaysInside ps) {expression : String → String}
    (hexpression : ∀ f, Passes (expression f).toList (.substitution :: .template :: outer))
    (hplaces : IsTemplate ps outer places) :
    Leads (texts expression ps ++ ['\x60']) places outer := by
  induction ps generalizing places with
  | nil => obtain rfl | ⟨rfl, -⟩ := hplaces <;> rfl
  | cons p ps ih =>
    obtain ⟨hbackslash, hdollar, hrest⟩ := h
    rw [texts_cons, List.append_assoc]
    cases p with
    | field f =>
      have hopen : Leads ['$', '{'] places (.substitution :: .template :: outer) := by
        obtain rfl | ⟨rfl, -⟩ := hplaces <;> rfl
      have hclose : Leads ((expression f).toList ++ ['}']) (.substitution :: .template :: outer)
          (.template :: outer) := (hexpression f).leads (by decide) rfl
      exact (hopen.append hclose).append (ih hrest (.inl rfl))
    | char c =>
      rw [Piece.text]
      split
      · next hc =>
        have hescape : Leads ['\\', '\x60'] places (.template :: outer) := by
          obtain rfl | ⟨rfl, -⟩ := hplaces <;> rfl
        exact hescape.append (ih hrest (.inl rfl))
      · next hc =>
        have hstep : step places c = some (inTemplate outer c) := by
          obtain rfl | ⟨rfl, hopen⟩ := hplaces
          · rfl
          · have hne : c ≠ '{' := fun heq => hopen (heq ▸ rfl)
            rw [step_dollar, if_neg hne]
        refine .cons hstep (ih hrest ?_)
        by_cases hd : c = '$'
        · exact .inr ⟨by simp [inTemplate, hd], hdollar (hd ▸ rfl)⟩
        · have hslash : c ≠ '\\' := fun heq => hbackslash (heq ▸ rfl)
          exact .inl (by simp [inTemplate, hc, hd, hslash])

/-- The path of a request can be told from the code around it: it stands in quotes, or its pieces
stay in their literal. -/
def KeepsPath (e : Endpoint) : Prop :=
  e.pathFields ≠ [] → e.hasInput = true → (∀ guarded, e.HasMarks guarded) ∧ StaysInside e.pieces

theorem leads_url (hcode : isCode places = true)
    (hdeclared : e.hasInput = true → declared places = true) (hkeeps : KeepsPath e)
    (guarded : Bool) : Leads (e.url guarded).toList places places := by
  by_cases h : e.pathFields = [] ∨ e.hasInput = false
  · rw [url, if_pos (by simpa using h)]
    exact leads_quoted hcode e.path
  · obtain ⟨hfields, hinput⟩ := not_or.1 h
    rw [Bool.not_eq_false] at hinput
    obtain ⟨hmarks, hpieces⟩ := hkeeps hfields hinput
    rw [url_eq_texts hfields hinput (hmarks guarded)]
    have hopen : step places '\x60' = some (.template :: places) := by
      obtain rfl | ⟨outer, rfl | rfl | rfl | ⟨declares, rfl⟩ | rfl⟩ := isCode_cases hcode <;> rfl
    have hinside : declared (.substitution :: .template :: places) = true := hdeclared hinput
    exact .cons hopen (leads_texts hpieces (fun f => passes_accessor rfl hinside e f guarded)
      (.inl rfl))

end Code
end ApiScribe
