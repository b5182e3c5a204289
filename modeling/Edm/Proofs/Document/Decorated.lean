import Edm.Proofs.Decorating.Bound
import Edm.Proofs.Document.Structure

/-!
# Elements of decorated entries

The decorators of an entry, together with the types that its expressions stand for, determine its element:
`PropertyEntry.element` and `ModelEntry.element` say how, without the graph.  What a loaded program shows for a
property or a model is this element (`Program.propertyElement_shows`, `Program.modelElement_shows`), whatever is
declared around it.
-/

namespace Edm

/-! ### Accepted decorators -/

namespace Decorator

/-- The name of a decorator. -/
def word : Decorator → Text
  | id => "id"
  | openModel => "openModel"
  | contains => "contains"
  | references => "references"

theorem ofName?_word (d : Decorator) : ofName? d.word = some d := by
  cases d <;> decide

theorem word_of_ofName? {name : Text} {d : Decorator} (h : ofName? name = some d) : name = d.word := by
  obtain ⟨x, hx, rfl⟩ := Option.map_eq_some_iff.1 h
  have hname := List.find?_some (p := fun y : Text × Decorator => y.1 == name) hx
  have hmem := List.mem_of_find?_eq_some hx
  rw [← eq_of_beq hname]
  simp only [named, List.mem_cons, List.not_mem_nil, or_false] at hmem
  rcases hmem with rfl | rfl | rfl | rfl <;> rfl

theorem kind_inj {d d' : Decorator} (h : d.kind.id = d'.kind.id) : d = d' := by
  cases d <;> cases d' <;> first | rfl | cases h

/-- The name of the key that a property with a name of its own becomes by the arguments of an `id` decorator. -/
def keyName? (own : Text) : List Json → Option Text
  | [] | [.null] | [.string []] => if own = [] then none else some own
  | [.string given] => some given
  | _ => none

theorem keyName?_ne_nil {own key : Text} : {arguments : List Json} → keyName? own arguments = some key → key ≠ []
  | [], h | [.null], h | [.string []], h => by
    rw [keyName?] at h
    split at h
    next => cases h
    next hown => exact Option.some.inj h ▸ hown
  | [.string (c :: t)], h => by
    cases h
    simp
  | [.boolean _], h | [.number _], h | [.array _], h | [.object _], h => by cases h
  | _ :: _ :: _, h => by simp [keyName?] at h

theorem keyValue?_text (own : Text) : (arguments : List Json) →
    keyValue? (.text own) arguments = (keyName? own arguments).map Json.string
  | [] | [.null] | [.string []] => by
    rw [keyValue?, keyName?]
    cases own <;> rfl
  | [.string (_ :: _)] | [.boolean _] | [.number _] | [.array _] | [.object _] => rfl
  | _ :: _ :: _ => by simp [keyValue?, keyName?]

end Decorator

/-- A decorator binds something for its own kind only. -/
theorem Graph.valueFor?_kind (g : Graph) (d : Decorator) (name : Text) (target : Node) (arguments : List Json) :
    g.valueFor? d.kind name target arguments
      = if Program.bareName name = d.word then d.value? g target arguments else none := by
  rw [valueFor?, binding?]
  split
  next hname =>
    rw [hname, Decorator.ofName?_word, Option.bind_some]
    cases d.value? g target arguments <;> simp
  next hname =>
    cases hother : Decorator.ofName? (Program.bareName name) with
    | none => rfl
    | some d' =>
      have hne : ¬ d'.kind.id = d.kind.id := by
        intro hid
        rw [Decorator.word_of_ofName? hother, Decorator.kind_inj hid] at hname
        exact hname rfl
      cases d'.value? g target arguments <;> simp [hne]

/-! ### Decorators of entries -/

/-- Whether some decorators are marked by one with a name and without arguments. -/
def isMarked (decorators : List Json) (d : Decorator) : Bool :=
  decorators.any fun x => Program.bareName x.decoratorName = d.word && (x.items "args").isEmpty

namespace PropertyEntry

/-- The name of the key that a property becomes by one of its decorators, if this is an accepted `id`. -/
def keyOf? (e : PropertyEntry) (x : Json) : Option Text :=
  if Program.bareName x.decoratorName = Decorator.id.word then Decorator.keyName? e.name.display (x.items "args")
  else none

/-- The name of the key that a property is: what the last accepted `id` among its decorators says. -/
def key? (e : PropertyEntry) : Option Text := (e.decorators.filterMap e.keyOf?).getLast?

/-- The element of a property, given the name and the identifier of its type. -/
def element (e : PropertyEntry) (type id : Label) : Element :=
  if isMarked e.decorators .contains || isMarked e.decorators .references then
    Element.build "NavigationProperty" [("Name", e.name), ("Type", id),
      ("ContainsTarget", Program.mark (isMarked e.decorators .contains) "true")] []
  else
    Element.build "Property" [("Name", e.name), ("Type", type),
      ("Nullable", Program.mark (!e.optional) "false")] []

end PropertyEntry

/-- The element of a key. -/
def keyElement (key : Text) : Element := Element.build "Key" [] [Element.build "PropertyRef" [("Name", .text key)] []]

namespace ModelEntry

/-- The name of the key of a model: that of the first of its properties that is a key. -/
def key? (e : ModelEntry) : Option Text := (latest PropertyEntry.name e.properties).findSome? PropertyEntry.key?

/-- The element of a model, given the name of its base and the elements of its properties. -/
def element (e : ModelEntry) (base : Label) (properties : List Element) : Element :=
  let attributes : List (Text × Label) :=
    [("Name", e.name), ("BaseType", base), ("OpenType", Program.mark (isMarked e.decorators .openModel) "true")]
  match e.key? with
  | some key => Element.build "EntityType" attributes (keyElement key :: properties)
  | none => Element.build "ComplexType" attributes properties

end ModelEntry

namespace Program

open Declarations

section

variable {data : Json} {p : Program} {n : Node} {site : Text} {decorators : List Json} {path : List Text}
  {space : NamespaceId}

/-! ### Bindings of entries -/

/-- What is bound to a node of a loaded program, given the decorators that are written there. -/
theorem get?_of_decorators (h : load data = .ok p)
    (hview : ((ofDescription data.outline).view n).decorators = decorators.map fun x => (site, x)) (d : Decorator) :
    p.store.get? d.kind n = (decorators.filterMap fun x =>
      if bareName x.decoratorName = d.word then d.value? p.graph n (x.items "args") else none).getLast? := by
  have hroute : d.kind.id ≠ AnnotationKind.route.id := by
    cases d <;> decide
  rw [get?_of_load h hroute, hview, List.filterMap_map]
  simp only [Function.comp_def, Json.valueFor?, Graph.valueFor?_kind]

/-- Where a decorator takes no arguments, something is bound if it is written without any. -/
theorem has_of_decorators (h : load data = .ok p)
    (hview : ((ofDescription data.outline).view n).decorators = decorators.map fun x => (site, x)) {d : Decorator}
    (hvalue : ∀ arguments, (d.value? p.graph n arguments).isSome = arguments.isEmpty) :
    p.store.has d.kind n = isMarked decorators d := by
  rw [AnnotationStore.has, get?_of_decorators h hview, Bool.eq_iff_iff, List.getLast?_isSome, isMarked,
    List.any_eq_true, Ne, List.filterMap_eq_nil_iff]
  push Not
  refine exists_congr fun x => and_congr_right fun _ => ?_
  have hx := hvalue (x.items "args")
  rw [← Option.isSome_iff_ne_none]
  split
  next hname => simp [hx, hname]
  next hname => simp [hname]

variable {i : PropertyId} {owner : ModelId} {e : PropertyEntry}

theorem get?_key (h : load data = .ok p) (hat : (ofDescription data.outline).PropertyAt path site owner i e)
    (htext : e.name.isText = true) (hname : (p.graph.properties.get i).name = e.name) :
    p.store.get? .key (.property i) = e.key?.map Json.string := by
  obtain ⟨own, hown⟩ := Label.isText_iff.1 htext
  have hget := get?_of_decorators h (congrArg View.decorators hat) .id
  have hkey : ∀ x : Json, (if bareName x.decoratorName = Decorator.id.word then
      Decorator.id.value? p.graph (.property i) (x.items "args") else none) = (e.keyOf? x).map Json.string := by
    intro x
    rw [Decorator.value?, hname, PropertyEntry.keyOf?, hown, Decorator.keyValue?_text]
    split <;> rfl
  rw [show AnnotationKind.key = Decorator.id.kind from rfl, hget, PropertyEntry.key?]
  simp only [hkey]
  rw [← List.map_filterMap, List.getLast?_map]

theorem isKey_eq (h : load data = .ok p) (hat : (ofDescription data.outline).PropertyAt path site owner i e)
    (htext : e.name.isText = true) (hname : (p.graph.properties.get i).name = e.name) :
    p.store.isKey i = e.key?.isSome := by
  rw [AnnotationStore.isKey, AnnotationStore.has, get?_key h hat htext hname, Option.isSome_map]

theorem key?_ne_nil {key : Text} (h : e.key? = some key) : key ≠ [] := by
  obtain ⟨x, -, hx⟩ := List.mem_filterMap.1 (List.mem_of_getLast? h)
  rw [PropertyEntry.keyOf?] at hx
  split at hx
  next => exact Decorator.keyName?_ne_nil hx
  next => cases hx

theorem keyElement_eq (h : load data = .ok p) (hat : (ofDescription data.outline).PropertyAt path site owner i e)
    (htext : e.name.isText = true) (hname : (p.graph.properties.get i).name = e.name) {key : Text}
    (hkey : e.key? = some key) : p.keyElement i = Edm.keyElement key := by
  have htruthy : (Json.string key).truthy = true := by
    simpa [Json.truthy] using key?_ne_nil hkey
  rw [keyElement, AnnotationStore.keyName, get?_key h hat htext hname, hkey, Option.map_some]
  dsimp only
  rw [if_pos htruthy]
  rfl

theorem propertyClass_eq (h : load data = .ok p) (hat : (ofDescription data.outline).PropertyAt path site owner i e) :
    p.store.propertyClass i =
      if isMarked e.decorators .contains || isMarked e.decorators .references then
        .navigation (isMarked e.decorators .contains)
      else .scalar := by
  have hview := congrArg View.decorators hat
  have hcontains : p.store.has .contains (.property i) = _ :=
    has_of_decorators h hview (d := .contains) fun arguments => by cases arguments <;> rfl
  have hreferences : p.store.has .references (.property i) = _ :=
    has_of_decorators h hview (d := .references) fun arguments => by cases arguments <;> rfl
  rw [AnnotationStore.propertyClass, hcontains, hreferences]
  cases isMarked e.decorators .contains <;> cases isMarked e.decorators .references <;> rfl

end

end Program

/-! ### Elements of entries -/

section

variable (p : Program) (d : Declarations) (scope : List Text)

/-- The element that a property of a program has for an entry. -/
def PropertyShows (e : PropertyEntry) (c : Element) : Prop :=
  ∃ type, d.Denotes p.graph scope e.type type ∧ c = e.element (p.graph.typeName type) (p.graph.idLabel type)

/-- The element that a model of a program has for an entry. -/
def ModelShows (e : ModelEntry) (c : Element) : Prop :=
  ∃ base properties, BaseFits p d scope e.base base
    ∧ List.Forall₂ (PropertyShows p d scope) (latest PropertyEntry.name e.properties) properties
    ∧ c = e.element base properties

end

namespace Program

open Declarations

section

variable {data : Json} {p : Program} {path : List Text} {site : Text} {space : NamespaceId}

theorem propertyElement_eq (h : load data = .ok p) {owner : ModelId} {i : PropertyId} {e : PropertyEntry} {type : Node}
    (hcell : p.graph.cell? (.property i)
      = some (.property { name := e.name, type, optional := e.optional, owner := some owner }))
    (hat : (ofDescription data.outline).PropertyAt path site owner i e) :
    p.propertyElement i = e.element (p.graph.typeName type) (p.graph.idLabel type) := by
  rw [propertyElement, Graph.get_property hcell, propertyClass_eq h hat, PropertyEntry.element]
  cases isMarked e.decorators .contains || isMarked e.decorators .references <;> rfl

theorem propertyElement_shows (h : load data = .ok p) {owner : ModelId} {i : PropertyId} {e : PropertyEntry}
    (hin : (ofDescription data.outline).PropertyIn p.graph path owner i e)
    (hat : (ofDescription data.outline).PropertyAt path site owner i e) :
    PropertyShows p (ofDescription data.outline) path e (p.propertyElement i) := by
  obtain ⟨type, hdenotes, hcell⟩ := hin
  exact ⟨type, hdenotes, propertyElement_eq h hcell hat⟩

/-- What a loaded program shows for a model is the element of its entry. -/
theorem modelElement_shows (h : load data = .ok p) (hd : (ofDescription data.outline).Tidy) {i : ModelId}
    {e : ModelEntry} (hat : (ofDescription data.outline).ModelAt space path i e)
    (htext : ∀ q ∈ e.properties, q.name.isText = true) :
    ModelShows p (ofDescription data.outline) path e (p.modelElement i) := by
  obtain ⟨-, hsettle⟩ := settleAll_of_load h
  obtain ⟨properties, base, hmodel, hbase, hproperties⟩ := hat.settledAt hd hsettle
  have hopen : p.store.isOpen i = isMarked e.decorators .openModel := by
    obtain ⟨_, hview, -⟩ := hat
    exact has_of_decorators h (congrArg View.decorators hview) (d := .openModel) fun arguments => by
      cases arguments <;> rfl
  have hname : ∀ {j q}, (ofDescription data.outline).PropertyIn p.graph path i j q →
      (p.graph.properties.get j).name = q.name := by
    rintro j q ⟨type, -, hcell⟩
    rw [Graph.get_property hcell]
  refine ⟨_, _, baseFits hbase, hproperties.forall₂_values fun j q hj => propertyElement_shows h hj.1 hj.2, ?_⟩
  rw [modelElement, Graph.get_model hmodel, hopen, ModelEntry.element, AnnotationStore.keyProperty?]
  -- a property is found to be a key by what is bound to it, an entry by what is written there
  obtain ⟨hnone, hkey⟩ | ⟨j, q, key, ⟨⟨hin, hq⟩, hqtext⟩, hqkey, hfound, hkey⟩ :=
    (hproperties.and_of_mem htext).find?_values (f := p.store.isKey) (k := PropertyEntry.key?)
      fun j q hj => isKey_eq h hj.1.2 hj.2 (hname hj.1.1)
  · cases base <;> simp only [hnone, show e.key? = none from hkey]
  · cases base <;>
      simp only [hfound, show e.key? = some key from hkey, keyElement_eq h hq hqtext (hname hin) hqkey]

/-! ### Shown places -/

open Opening NamespaceEntry

theorem Decorated.hasTextNames_of_place (htexts : data.HasTextNames) {o : Opening}
    (ho : o ∈ places [] (builtInEntry :: data.outline)) : o.2.HasTextNames := by
  obtain ⟨-, -, hdeclared⟩ := of_mem_places (filter_isBelow_openingsOf [] _) ho
  rw [← hdeclared]
  exact hasTextNames_declared htexts.openings _

theorem isIncluded_place (h : load data = .ok p) (htexts : data.HasTextNames) (excluded : List Text) {o : Opening}
    (ho : o ∈ places [] (builtInEntry :: data.outline)) :
    p.graph.isIncluded excluded (place data.openings o.1) = isShown excluded o := by
  have hlaid := isLaidOut_of_load h htexts.openings
  obtain ⟨hmem, hne, hcontents⟩ := Structure.of_place h htexts ho
  have hname : (Graph.dotted o.1).isEmpty = false :=
    List.isEmpty_eq_false_iff.2 (dotted_ne_nil hne (hlaid.rooted.nil_notMem hmem))
  rw [Graph.isIncluded, hlaid.namespaceName_eq hmem, isRenderable_eq hcontents, hname]
  rfl

/-- The namespaces of a loaded program that get a schema are those of the shown places. -/
theorem flatten_of_load (h : load data = .ok p) (htexts : data.HasTextNames) (excluded : List Text) :
    p.graph.flatten excluded Graph.root
      = ((places [] (builtInEntry :: data.outline)).filter (isShown excluded)).map
          fun o => place data.openings o.1 := by
  have hlaid := isLaidOut_of_load h htexts.openings
  have hroot : p.graph.isIncluded excluded Graph.root = false := by
    have hname := hlaid.namespaceName_eq (nil_mem_paths _)
    rw [place_nil] at hname
    rw [Graph.isIncluded, show p.graph.namespaceName Graph.root = Graph.dotted [] from hname]
    rfl
  rw [Graph.flatten, expand_of_load h htexts.openings, List.filter_cons_of_neg (by simp [hroot]), List.filter_map]
  exact congrArg _ (List.filter_congr fun o ho => isIncluded_place h htexts excluded ho)

theorem modelElements_of_place (h : load data = .ok p) (htexts : data.HasTextNames) {o : Opening}
    (ho : o ∈ places [] (builtInEntry :: data.outline)) :
    List.Forall₂ (ModelShows p (ofDescription data.outline) o.1) (latest ModelEntry.name o.2.models)
      ((p.graph.namespaces.get (place data.openings o.1)).models.values.map p.modelElement) := by
  have hbuilt := built_of_load h htexts.openings
  obtain ⟨-, -, hcontents⟩ := Structure.of_place h htexts ho
  have hmodels := hcontents.models.and_of_mem (Decorated.hasTextNames_of_place htexts ho).2.1
  exact hmodels.forall₂_values fun i e hi => modelElement_shows h hbuilt.tidy hi.1 hi.2.2

end

end Program

end Edm
