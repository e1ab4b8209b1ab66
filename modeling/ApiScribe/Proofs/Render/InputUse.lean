import ApiScribe.Proofs.Endpoint.Types
import ApiScribe.Proofs.Pipeline.OutputPaths
import ApiScribe.Proofs.Render.Closed
import ApiScribe.Proofs.Render.Requests

/-! Where generated functions use their argument. Whether a function takes one is told by the type of
its input, and that goes with the number of the values to pass; the renderers write the argument where
it is taken, and nowhere else, as long as the path of a request does not leave the literal that it
stands in. -/
namespace ApiScribe
namespace Pipeline

open Code Endpoint Render
open TypeText (isWordChar)

variable {p : Pipeline} {document : Value} {a : Api} {e : Endpoint}

theorem isWordChar_of_isNameText {s : String} (h : IsNameText s) :
    ∀ c ∈ s.toList, isWordChar c = true := by
  intro c hc
  rcases h c hc with hchar | rfl
  · rw [isWordChar, hchar, Bool.true_or, Bool.true_or]
  · decide

/-- The names and the method of an endpoint of a document are words. -/
theorem isReadable_transformed (h : p.transformed document = .ok a) (he : e ∈ a.endpoints)
    (hpath : KeepsPath e) : IsReadable e := by
  have hbuilder := (isNamed_transformed h e he).builder
  refine ⟨?_, isWordChar_of_isNameText (isNameText_exportName_transformed h he), ?_, ?_, hpath⟩
  · obtain ⟨b, name, path, method, _, _, hrest, hbuild, -⟩ := exists_operation_of_transformed h he
    have hmethod : e.method = b.method := (congrArg Endpoint.method hrest).symm
    exact ⟨method, hmethod.trans (build_eq_ok hbuild).1⟩
  · have hname : IsNameText ("build" ++ Naming.pascal e.exportName ++ "Spec") :=
      (IsNameText.append (by decide) (isNameText_pascal _)).append (by decide)
    exact isWordChar_of_isNameText (hbuilder ▸ hname)
  · rw [hbuilder]
    simp [argument, keyword?]

/-- The path of the builder of an endpoint is made of words. -/
theorem isPlainSource_builderPath (h : p.transformed document = .ok a) (he : e ∈ a.endpoints) :
    IsPlainSource (builderPath e (stem a.endpoints e)) := by
  have hscope : ∀ s ∈ e.scope, IsPlainSource s := by
    intro s hs c hc
    have hchar := Naming.forall_mem_of_isKebabFrom ((hasKebabScope_transformed h he).2 s hs) c hc
    constructor
    · rintro rfl
      exact absurd hchar (by decide)
    · rintro rfl
      exact absurd hchar (by decide)
  have hstem : IsPlainSource (e.stemOr (stem a.endpoints e)) := by
    obtain ⟨d, hd, hname | hname⟩ := exists_stemOr a.endpoints he
    · rw [hname]
      exact isPlainSource_of_words (isWordChar_of_isNameText
        (isNameText_of_isWordText (isNamed_transformed h d hd).operation))
    · rw [hname]
      exact isPlainSource_of_words
        (isWordChar_of_isNameText (isNameText_exportName_transformed h hd))
  have hpath : IsPlainSource ("/".intercalate e.scope) := IsPlainSource.intercalate (by decide) hscope
  unfold builderPath filePath
  exact ((((IsPlainSource.append (by decide) (by decide)).append hpath).append (by decide)).append
    hstem).append (by decide)

/-- Without settings the client and the models are imported as they are. -/
theorem hasPlainImports_of_none (hclient : a.clientImport = none) (hmodels : a.modelImport = none) :
    HasPlainImports a where
  client := by
    have hwords : ∀ c ∈ "getApiClient".toList, isWordChar c = true :=
      List.all_eq_true.1 (by decide)
    rw [hclient]
    exact isPlainClient_clientLines hwords (by decide) (by decide) (by decide) (by decide)
  models := by
    intro path
    have hdefault : a.modelBase path = Import.defaultModels := by rw [Api.modelBase, hmodels]; rfl
    rw [hdefault]
    decide

/-- **Where functions use their argument.** Let no reference of a document name what it refers to by
the mark of no input. However a pipeline transforms the endpoints, if it does at all, each takes an
argument exactly if it has slots, and the argument has a shape exactly if there are several. If the
paths of all endpoints keep to their literals and the settings are plain, then in all that is planned
for them the argument is used in functions only that declare it. -/
theorem isClosed_of_transformed (h : p.transformed document = .ok a)
    (hrefs : ∀ ref ∈ document.references, Text.trimmed (Reference.targetName ref) ≠ "void") :
    (∀ e ∈ a.endpoints,
      (e.hasInput = true ↔ 0 < e.inputSlots) ∧ (e.inputShape.isSome = true ↔ 2 ≤ e.inputSlots)) ∧
    ((∀ e ∈ a.endpoints, KeepsPath e) → HasPlainImports a → ∀ id ∈ inputRenderers,
      ∃ r, Registry.builtin.create id = .ok r ∧ ∀ f ∈ (r.render a).files, IsClosed f.content) := by
  refine ⟨hasInput_iff_transformed h hrefs, fun hpaths himports id hid => ?_⟩
  have hfound : ∃ r, Registry.builtin.create id = .ok r := by
    simp only [inputRenderers, List.mem_cons, List.not_mem_nil, or_false] at hid
    rcases hid with rfl | rfl | rfl | rfl <;> exact ⟨_, rfl⟩
  obtain ⟨r, hr⟩ := hfound
  exact ⟨r, hr, fun f hf => isClosed_of_mem_render
    (fun e he => isReadable_transformed h he (hpaths e he)) himports
    (fun e he => isPlainSource_builderPath h he) hid hr hf⟩

/-- The endpoints of a document as they are found. -/
def untouched : Pipeline := { passes := [] }

/-- The change of an order takes its three inputs in one argument of a shape of its own, and every
function that is planned for it declares the argument that it uses. -/
theorem isClosed_changedOrders : untouched.transformed changeOrder = .ok changedOrders ∧
    (∀ ref ∈ changeOrder.references, Text.trimmed (Reference.targetName ref) ≠ "void") ∧
    changedOrder.hasInput = true ∧ changedOrder.inputSlots = 3 ∧ KeepsPath changedOrder ∧
    ∀ id ∈ inputRenderers, ∃ r, Registry.builtin.create id = .ok r ∧
      ∀ f ∈ (r.render changedOrders).files, IsClosed f.content := by
  have hfound : untouched.transformed changeOrder = .ok changedOrders :=
    transformed_eq_ok.2 ⟨_, _, ofDocument_changeOrder, rfl, rfl⟩
  have hkeeps : KeepsPath changedOrder := by
    intro _ _
    exact ⟨fun guarded => ⟨by decide, by cases guarded <;> decide⟩, by decide⟩
  have hplain : HasPlainImports changedOrders := hasPlainImports_of_none rfl rfl
  have hrefs : ∀ ref ∈ changeOrder.references,
      Text.trimmed (Reference.targetName ref) ≠ "void" := by decide +kernel
  obtain ⟨hinput, hclosed⟩ := isClosed_of_transformed hfound hrefs
  have htakes := hinput changedOrder (List.mem_singleton_self _)
  exact ⟨hfound, hrefs, htakes.1.2 (by decide), by decide, hkeeps,
    hclosed (List.forall_mem_singleton.2 hkeeps) hplain⟩

/-- Items whose path closes the literal that it stands in, and ends the function around. -/
def tornItems : Value :=
  Endpoint.oneOperation "/items/\x7bid\x7d\\\x60\x7d);\x7dinput;\x7baxios.request(\x7b//" "get"
    [("parameters", .list [textParameter "id" "path"])]

def tornItem : Endpoint :=
  { operationName := "order", exportName := "defaultOrder",
    builderName := "buildDefaultOrderSpec", method := "GET",
    path := "/items/\x7bid\x7d\\\x60\x7d);\x7dinput;\x7baxios.request(\x7b//",
    inputTypeName := "string", pathFields := ["id"], supportsQuery := true,
    supportsMutation := false }

/-- The path of the items has a backslash in front of a backquote. Only the backquote is escaped in
the script, so the rest of the path is code outside all functions, and uses the argument there. -/
theorem not_isClosed_tornItems : tornItems.references = [] ∧
    untouched.transformed tornItems = .ok { endpoints := [tornItem] } ∧
    ∃ r, Registry.builtin.create "axios-js" = .ok r ∧
      ∃ f ∈ (r.render { endpoints := [tornItem] }).files, Code.read [] f.content.toList = none := by
  have hfound : ofDocument tornItems = .ok { endpoints := [tornItem] } := by decide +kernel
  refine ⟨by decide +kernel, transformed_eq_ok.2 ⟨_, _, hfound, rfl, rfl⟩, _, rfl, _,
    List.mem_singleton_self _, ?_⟩
  rw [toList_fileText]
  decide +kernel

end Pipeline
end ApiScribe
