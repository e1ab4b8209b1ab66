import ApiScribe.Proofs.Template.Reading
import ApiScribe.Proofs.Text.Standing
import ApiScribe.Request

/-! The pieces of a path: marks of fields, and characters that stand for themselves. Replacing the
marks field after field is the same as replacing them all at once, as long as no name holds a brace
or a backquote and no substitution is a mark itself. -/
namespace ApiScribe
namespace Endpoint

open Text (startsWith replaceAll)

/-- A piece of a path: a character that stands for itself, or the mark of a field. -/
inductive Piece
  | char (c : Char)
  | field (name : String)
  deriving Repr, DecidableEq

/-- The pieces of a path, read from left to right, with `skip` characters still belonging to the
mark just read. -/
def piecesFrom (fields : List String) : Nat → List Char → List Piece
  | _, [] => []
  | skip + 1, _ :: cs => piecesFrom fields skip cs
  | 0, c :: cs =>
    match fields.find? fun f => startsWith (placeholder f).toList (c :: cs) with
    | some f => .field f :: piecesFrom fields ((placeholder f).toList.length - 1) cs
    | none => .char c :: piecesFrom fields 0 cs

/-- The pieces of the path of an endpoint. -/
def pieces (e : Endpoint) : List Piece := piecesFrom e.pathFields 0 e.path.toList

/-- What a piece stands for, given the values of the fields. -/
def Piece.value (values : String → List UInt16) : Piece → List UInt16
  | .char c => Template.charUnits c
  | .field f => values f

/-- The path with the values of all fields in the places of their marks. -/
def filled (e : Endpoint) (values : String → List UInt16) : List UInt16 :=
  e.pieces.flatMap (Piece.value values)

/-- A text without braces and backquotes. -/
def IsPlainName (cs : List Char) : Prop := ∀ c ∈ cs, c ∉ ['{', '}', '\x60']

instance (cs : List Char) : Decidable (IsPlainName cs) :=
  List.decidableBAll (fun c => c ∉ ['{', '}', '\x60']) cs

theorem placeholder_toList (f : String) : (placeholder f).toList = '{' :: (f.toList ++ ['}']) := by
  simp [placeholder]

theorem startsWith_placeholder_iff {f : String} {cs : List Char} :
    startsWith (placeholder f).toList cs = true ↔ ∃ rest, cs = (placeholder f).toList ++ rest := by
  rw [Text.startsWith_iff]
  exact ⟨fun ⟨rest, h⟩ => ⟨rest, h.symm⟩, fun ⟨rest, h⟩ => ⟨rest, h.symm⟩⟩

/-- Texts without closing braces are the same if they stand in front of closing braces in one
text. -/
theorem eq_of_append_brace {as bs cs ds : List Char} (ha : '}' ∉ as) (hb : '}' ∉ bs)
    (h : as ++ '}' :: cs = bs ++ '}' :: ds) : as = bs := by
  induction as generalizing bs with
  | nil =>
    cases bs with
    | nil => rfl
    | cons b bs =>
      cases h
      exact absurd List.mem_cons_self hb
  | cons a as ih =>
    cases bs with
    | nil =>
      cases h
      exact absurd List.mem_cons_self ha
    | cons b bs =>
      obtain ⟨rfl, htails⟩ := List.cons.inj h
      rw [ih (fun hm => ha (List.mem_cons_of_mem a hm)) (fun hm => hb (List.mem_cons_of_mem a hm))
        htails]

theorem IsPlainName.append {cs ds : List Char} (hc : IsPlainName cs) (hd : IsPlainName ds) :
    IsPlainName (cs ++ ds) :=
  fun c h => (List.mem_append.1 h).elim (hc c) (hd c)

theorem IsPlainName.of_cons {c : Char} {cs : List Char} (h : IsPlainName (c :: cs)) :
    IsPlainName cs := fun d hd => h d (List.mem_cons_of_mem c hd)

theorem IsPlainName.brace_not_mem {cs : List Char} (h : IsPlainName cs) : '}' ∉ cs :=
  fun hm => h '}' hm (by decide)

theorem IsPlainName.open_not_mem {cs : List Char} (h : IsPlainName cs) : '{' ∉ cs :=
  fun hm => h '{' hm (by decide)

theorem IsPlainName.backquote_not_mem {cs : List Char} (h : IsPlainName cs) : '\x60' ∉ cs :=
  fun hm => h '\x60' hm (by decide)

/-- Marks that start at one place are marks of one field. -/
theorem eq_of_startsWith_placeholder {f g : String} (hf : IsPlainName f.toList)
    (hg : IsPlainName g.toList) {rest : List Char}
    (h : startsWith (placeholder f).toList ((placeholder g).toList ++ rest) = true) : f = g := by
  obtain ⟨more, hmore⟩ := startsWith_placeholder_iff.1 h
  simp only [placeholder_toList, List.cons_append, List.append_assoc, List.nil_append] at hmore
  exact String.toList_inj.1
    (eq_of_append_brace hg.brace_not_mem hf.brace_not_mem (List.cons.inj hmore).2).symm

section
variable {fields : List String}

theorem piecesFrom_append {as : List Char} (bs : List Char) :
    piecesFrom fields as.length (as ++ bs) = piecesFrom fields 0 bs := by
  induction as with
  | nil => rfl
  | cons a as ih => exact ih

theorem pieces_char {c : Char} {cs : List Char}
    (h : ∀ f ∈ fields, startsWith (placeholder f).toList (c :: cs) = false) :
    piecesFrom fields 0 (c :: cs) = .char c :: piecesFrom fields 0 cs := by
  have hnone : (fields.find? fun f => startsWith (placeholder f).toList (c :: cs)) = none :=
    List.find?_eq_none.2 fun f hf => by simp [h f hf]
  rw [piecesFrom, hnone]

/-- A mark is read as its field. -/
theorem pieces_placeholder (hplain : ∀ f ∈ fields, IsPlainName f.toList) {f : String}
    (hf : f ∈ fields) (rest : List Char) :
    piecesFrom fields 0 ((placeholder f).toList ++ rest) = .field f :: piecesFrom fields 0 rest := by
  have hfind : (fields.find? fun g => startsWith (placeholder g).toList
      ((placeholder f).toList ++ rest)) = some f := by
    cases hfound : fields.find? fun g => startsWith (placeholder g).toList
        ((placeholder f).toList ++ rest) with
    | none =>
      have hnot := List.find?_eq_none.1 hfound f hf
      exact absurd (startsWith_placeholder_iff.2 ⟨rest, rfl⟩) hnot
    | some g =>
      have hg := List.mem_of_find?_eq_some hfound
      have hstart := List.find?_some hfound
      rw [eq_of_startsWith_placeholder (hplain g hg) (hplain f hf) hstart]
  rw [placeholder_toList, List.cons_append] at hfind ⊢
  rw [piecesFrom, hfind]
  dsimp only
  rw [placeholder_toList, List.length_cons, Nat.add_sub_cancel, piecesFrom_append]

/-- A path is a row of marks and other characters. -/
theorem pieces_induction {P : List Char → Prop} (fields : List String) (nil : P [])
    (field : ∀ f ∈ fields, ∀ rest, P rest → P ((placeholder f).toList ++ rest))
    (char : ∀ c cs, (∀ f ∈ fields, startsWith (placeholder f).toList (c :: cs) = false) → P cs →
      P (c :: cs)) (cs : List Char) : P cs := by
  induction hn : cs.length using Nat.strongRecOn generalizing cs with
  | ind n ih =>
    cases cs with
    | nil => exact nil
    | cons c cs =>
      by_cases hmark : ∃ f ∈ fields, startsWith (placeholder f).toList (c :: cs) = true
      · obtain ⟨f, hf, hstart⟩ := hmark
        obtain ⟨rest, hrest⟩ := startsWith_placeholder_iff.1 hstart
        have hlength := congrArg List.length hrest
        simp only [List.length_append, placeholder_toList, List.length_cons] at hlength hn
        rw [hrest]
        exact field f hf rest (ih rest.length (by omega) rest rfl)
      · have hnone : ∀ f ∈ fields, startsWith (placeholder f).toList (c :: cs) = false := by
          intro f hf
          exact Bool.eq_false_iff.2 fun hstart => hmark ⟨f, hf, hstart⟩
        exact char c cs hnone (ih cs.length (by simp [← hn]) cs rfl)

theorem mem_of_field_mem {f : String} {skip : Nat} {cs : List Char}
    (h : .field f ∈ piecesFrom fields skip cs) : f ∈ fields := by
  induction cs generalizing skip with
  | nil => cases h
  | cons c cs ih =>
    cases skip with
    | succ n => exact ih h
    | zero =>
      rw [piecesFrom] at h
      split at h
      · next g hfound =>
        rcases List.mem_cons.1 h with heq | h
        · cases heq
          exact List.mem_of_find?_eq_some hfound
        · exact ih h
      · rcases List.mem_cons.1 h with heq | h
        · cases heq
        · exact ih h

end

section
variable (expression : String → String)

/-- A piece as it is written in a literal, given the expressions of the fields. -/
def Piece.text : Piece → List Char
  | .char c => if c = '\x60' then ['\\', '\x60'] else [c]
  | .field f => '$' :: '{' :: ((expression f).toList ++ ['}'])

/-- Pieces as they are written in a literal. -/
def texts (ps : List Piece) : List Char := ps.flatMap (Piece.text expression)

@[simp] theorem texts_nil : texts expression [] = [] := rfl

@[simp] theorem texts_cons (p : Piece) (ps : List Piece) :
    texts expression (p :: ps) = p.text expression ++ texts expression ps := List.flatMap_cons

@[simp] theorem texts_append (ps qs : List Piece) :
    texts expression (ps ++ qs) = texts expression ps ++ texts expression qs := List.flatMap_append

variable {expression}

theorem texts_char {cs : List Char} (h : '\x60' ∉ cs) :
    texts expression (cs.map .char) = cs := by
  induction cs with
  | nil => rfl
  | cons c cs ih =>
    rw [List.mem_cons, not_or] at h
    rw [List.map_cons, texts_cons, ih h.2, Piece.text, if_neg (Ne.symm h.1)]
    rfl

/-- A path without fields is written with its backquotes escaped. -/
theorem texts_no_fields (cs : List Char) :
    texts expression (piecesFrom [] 0 cs) = replaceAll ['\x60'] ['\\', '\x60'] cs := by
  induction cs with
  | nil => rfl
  | cons c cs ih =>
    rw [pieces_char (by simp), texts_cons, ih, Piece.text]
    by_cases hc : c = '\x60'
    · subst hc
      exact (Text.replaceAll_append_self (by simp) cs).symm
    · rw [if_neg hc, List.singleton_append, Text.replaceAll_cons]
      simp [startsWith, Text.after?, Ne.symm hc]

section
variable {done : List String} {g : String}

theorem not_prefix_of_not_mem {q cs : List Char} {c : Char} (hc : c ≠ '}') (hq : c ∉ q) :
    ¬ q ++ ['}'] <+: c :: cs := by
  intro h
  cases q with
  | nil => exact hc (List.cons_prefix_cons.1 h).1.symm
  | cons d q => exact hq ((List.cons_prefix_cons.1 h).1 ▸ List.mem_cons_self)

/-- Behind an opening brace, what is a mark in the written path is one in the path: no mark goes
into a substitution or an escape. -/
theorem prefix_of_texts (hdone : ∀ f ∈ done, IsPlainName f.toList) {q : List Char}
    (hq : IsPlainName q) {cs : List Char}
    (h : q ++ ['}'] <+: texts expression (piecesFrom done 0 cs)) : q ++ ['}'] <+: cs := by
  induction cs using pieces_induction done generalizing q with
  | nil => exact h
  | field f hf rest ih =>
    rw [pieces_placeholder hdone hf, texts_cons, Piece.text, List.cons_append] at h
    cases q with
    | nil => exact absurd h (not_prefix_of_not_mem (by decide) (by simp))
    | cons d q =>
      exact absurd (List.cons_prefix_cons.1 h).2
        (not_prefix_of_not_mem (by decide) hq.of_cons.open_not_mem)
  | char c cs hnone ih =>
    rw [pieces_char hnone, texts_cons, Piece.text] at h
    split at h
    · cases q with
      | nil => exact absurd h (not_prefix_of_not_mem (by decide) (by simp))
      | cons d q =>
        exact absurd (List.cons_prefix_cons.1 h).2
          (not_prefix_of_not_mem (by decide) hq.of_cons.backquote_not_mem)
    · cases q with
      | nil =>
        rw [(List.cons_prefix_cons.1 h).1]
        exact List.cons_prefix_cons.2 ⟨rfl, List.nil_prefix⟩
      | cons d q =>
        obtain ⟨rfl, htail⟩ := List.cons_prefix_cons.1 h
        exact List.cons_prefix_cons.2 ⟨rfl, ih hq.of_cons htail⟩

theorem pieces_of_open_not_mem {cs : List Char} (h : '{' ∉ cs) (rest : List Char) :
    piecesFrom done 0 (cs ++ rest) = cs.map .char ++ piecesFrom done 0 rest := by
  induction cs with
  | nil => rfl
  | cons c cs ih =>
    rw [List.mem_cons, not_or] at h
    rw [List.cons_append, pieces_char, ih h.2]
    · rfl
    · intro f _
      simp [placeholder_toList, startsWith, Text.after?, h.1]

/-- The mark of a name that is no field is no mark. -/
theorem pieces_of_not_mem (hdone : ∀ f ∈ done, IsPlainName f.toList) (hg : IsPlainName g.toList)
    (hmem : g ∉ done) (rest : List Char) :
    piecesFrom done 0 ((placeholder g).toList ++ rest) =
      (placeholder g).toList.map .char ++ piecesFrom done 0 rest := by
  have hopen : '{' ∉ g.toList ++ ['}'] := by
    simpa using hg.open_not_mem
  have hnone : ∀ f ∈ done,
      startsWith (placeholder f).toList ((placeholder g).toList ++ rest) = false := by
    intro f hf
    refine Bool.eq_false_iff.2 fun hstart => hmem ?_
    rwa [← eq_of_startsWith_placeholder (hdone f hf) hg hstart]
  rw [placeholder_toList, List.cons_append] at hnone ⊢
  rw [pieces_char hnone, pieces_of_open_not_mem hopen]
  rfl

/-- Replacing the mark of one more field. -/
theorem replaceAll_texts (hdone : ∀ f ∈ done, IsPlainName f.toList) (hg : IsPlainName g.toList)
    (hexpression : ∀ f ∈ done, IsPlainName (expression f).toList)
    (hne : ∀ f ∈ done, expression f ≠ g) (cs : List Char) :
    replaceAll (placeholder g).toList ('$' :: (placeholder (expression g)).toList)
        (texts expression (piecesFrom done 0 cs)) =
      texts expression (piecesFrom (done ++ [g]) 0 cs) := by
  have hall : ∀ f ∈ done ++ [g], IsPlainName f.toList := by
    intro f hf
    rcases List.mem_append.1 hf with hf | hf
    · exact hdone f hf
    · rwa [List.mem_singleton.1 hf]
  induction cs using pieces_induction (done ++ [g]) with
  | nil => rfl
  | field f hf rest ih =>
    rw [pieces_placeholder hall hf, texts_cons, ← ih]
    by_cases hmem : f ∈ done
    · -- no mark starts in the substitution of another field
      have hf := hexpression f hmem
      have hclosed : '{' ∉ (expression f).toList ++ ['}'] := by
        simpa using hf.open_not_mem
      have hnone : startsWith (placeholder g).toList ((placeholder (expression f)).toList ++
          texts expression (piecesFrom done 0 rest)) = false :=
        Bool.eq_false_iff.2 fun hstart =>
          hne f hmem (eq_of_startsWith_placeholder hg hf hstart).symm
      rw [placeholder_toList (expression f), List.cons_append] at hnone
      rw [pieces_placeholder hdone hmem, texts_cons, Piece.text, List.cons_append,
        List.cons_append, Text.replaceAll_cons, Text.replaceAll_cons hnone, placeholder_toList g,
        Text.replaceAll_append hclosed]
      · rfl
      · simp [placeholder_toList, startsWith, Text.after?]
    · obtain rfl : f = g := by
        rcases List.mem_append.1 hf with hf | hf
        · exact absurd hf hmem
        · exact List.mem_singleton.1 hf
      have hbackquote : '\x60' ∉ (placeholder f).toList := by
        simpa [placeholder_toList] using hg.backquote_not_mem
      rw [pieces_of_not_mem hdone hg hmem, texts_append, texts_char hbackquote,
        Text.replaceAll_append_self (by simp [placeholder_toList]), Piece.text, placeholder_toList]
  | char c cs hnone ih =>
    rw [pieces_char hnone, texts_cons, ← ih,
      pieces_char fun f hf => hnone f (List.mem_append_left _ hf), texts_cons, Piece.text]
    split
    · rw [placeholder_toList, Text.replaceAll_append (by decide)]
    · refine Text.replaceAll_cons (Bool.eq_false_iff.2 fun hstart => ?_)
      rw [Text.startsWith_iff, placeholder_toList] at hstart
      obtain ⟨rfl, htail⟩ := List.cons_prefix_cons.1 hstart
      have hmark : startsWith (placeholder g).toList ('{' :: cs) = true := by
        rw [Text.startsWith_iff, placeholder_toList]
        exact List.cons_prefix_cons.2 ⟨rfl, prefix_of_texts hdone hg htail⟩
      rw [hnone g (by simp)] at hmark
      cases hmark

/-- Replacing the marks of all fields one after the other. -/
theorem foldl_texts {e : Endpoint} {guarded : Bool} {rest : List String}
    (hplain : ∀ f ∈ done ++ rest, IsPlainName f.toList)
    (hexpression : ∀ f ∈ done ++ rest, IsPlainName (e.accessor f guarded).toList)
    (hne : (done ++ rest).Pairwise fun f g => e.accessor f guarded ≠ g) (cs : List Char) :
    (rest.foldl (e.substitute guarded)
        (String.ofList (texts (e.accessor · guarded) (piecesFrom done 0 cs)))).toList =
      texts (e.accessor · guarded) (piecesFrom (done ++ rest) 0 cs) := by
  induction rest generalizing done with
  | nil => rw [List.append_nil, List.foldl_nil, String.toList_ofList]
  | cons g rest ih =>
    have hassoc : done ++ g :: rest = done ++ [g] ++ rest := by simp
    have hdone : ∀ f ∈ done, f ∈ done ++ g :: rest := fun f hf => List.mem_append_left _ hf
    have hg : g ∈ done ++ g :: rest := by simp
    have hstep : replaceAll (placeholder g).toList
          ('$' :: (placeholder (e.accessor g guarded)).toList)
          (texts (e.accessor · guarded) (piecesFrom done 0 cs)) =
        texts (e.accessor · guarded) (piecesFrom (done ++ [g]) 0 cs) :=
      replaceAll_texts (fun f hf => hplain f (hdone f hf)) (hplain g hg)
        (fun f hf => hexpression f (hdone f hf))
        (fun f hf => (List.pairwise_append.1 hne).2.2 f hf g List.mem_cons_self) cs
    rw [hassoc] at hplain hexpression hne ⊢
    rw [List.foldl_cons, substitute, Text.replaceString, String.toList_ofList,
      String.toList_append]
    exact hstep ▸ ih hplain hexpression hne

end
end

end Endpoint
end ApiScribe
