import Edm.Proofs.Loading.Decorations
import Edm.Proofs.Loading.Loaded
import Edm.Proofs.Loading.Undecorated

/-!
# Descriptions with other decorators

Two descriptions that are the same but for the decorators of one model and of its properties (`Json.Redecorates`) have
the same declarations at the same paths, but for the entries with the name of this model at its path
(`Json.Redecorates.openings`).  Without decorators there is no difference, so they are loaded into the same graph
(`Program.graph_redecorated`).
-/

namespace Edm

open NamespaceEntry Opening

/-! ### Lists with one difference -/

/-- Two lists that are the same but perhaps for one item, which is related to the one in its place. -/
inductive SameButOne {α : Type} (R : α → α → Prop) : List α → List α → Prop
  | refl (l : List α) : SameButOne R l l
  | head {a a' : α} (l : List α) : R a a' → SameButOne R (a :: l) (a' :: l)
  | cons (a : α) {l l' : List α} : SameButOne R l l' → SameButOne R (a :: l) (a :: l')

namespace SameButOne

section

variable {α : Type} {R S : α → α → Prop} {l l' : List α}

theorem forall₂ (h : SameButOne R l l') (hR : ∀ a a', R a a' → S a a') (hS : ∀ a, S a a) : List.Forall₂ S l l' := by
  induction h with
  | refl l => exact List.forall₂_same.2 fun a _ => hS a
  | head l ha => exact .cons (hR _ _ ha) (List.forall₂_same.2 fun a _ => hS a)
  | cons a _ ih => exact .cons (hS a) ih

theorem append_left (h : SameButOne R l l') (before : List α) : SameButOne R (before ++ l) (before ++ l') := by
  induction before with
  | nil => exact h
  | cons a before ih => exact .cons a ih

theorem append_right (h : SameButOne R l l') (after : List α) : SameButOne R (l ++ after) (l' ++ after) := by
  induction h with
  | refl l => exact .refl _
  | head l ha => exact .head _ ha
  | cons a _ ih => exact .cons a ih

theorem map {β : Type} {S : β → β → Prop} {f : α → β} (h : SameButOne R l l') (hf : ∀ a a', R a a' → S (f a) (f a')) :
    SameButOne S (l.map f) (l'.map f) := by
  induction h with
  | refl l => exact .refl _
  | head l ha => exact .head _ (hf _ _ ha)
  | cons a _ ih => exact .cons _ ih

end

section

variable {ι κ α : Type} {R : α → α → Prop} {key : ι → κ} {k : κ} {l : List ι}

/-- What is made in two ways that differ for one key only, from items with distinct keys. -/
theorem flatMap_of_nodup {f f' : ι → List α} (hnodup : (l.map key).Nodup)
    (hsame : ∀ i ∈ l, key i ≠ k → f' i = f i) (hone : ∀ i ∈ l, key i = k → SameButOne R (f i) (f' i)) :
    SameButOne R (l.flatMap f) (l.flatMap f') := by
  induction l with
  | nil => exact .refl _
  | cons i l ih =>
    obtain ⟨hi, hnodup⟩ := List.nodup_cons.1 hnodup
    rw [List.flatMap_cons, List.flatMap_cons]
    by_cases hkey : key i = k
    · -- the key is that of the first item, so it is that of no later one
      have hrest : l.flatMap f' = l.flatMap f := by
        refine List.flatMap_congr fun j hj => hsame j (List.mem_cons_of_mem _ hj) ?_
        rintro rfl
        exact hi (hkey ▸ List.mem_map_of_mem hj)
      rw [hrest]
      exact (hone i (List.mem_cons_self ..) hkey).append_right _
    · rw [hsame i (List.mem_cons_self ..) hkey]
      exact (ih hnodup (fun j hj => hsame j (List.mem_cons_of_mem _ hj))
        fun j hj => hone j (List.mem_cons_of_mem _ hj)).append_left _

theorem map_of_nodup {f f' : ι → α} (hnodup : (l.map key).Nodup) (hsame : ∀ i ∈ l, key i ≠ k → f' i = f i)
    (hone : ∀ i ∈ l, key i = k → R (f i) (f' i)) : SameButOne R (l.map f) (l.map f') := by
  rw [List.map_eq_flatMap, List.map_eq_flatMap]
  exact flatMap_of_nodup hnodup (fun i hi hkey => by rw [hsame i hi hkey])
    fun i hi hkey => .head _ (hone i hi hkey)

end

end SameButOne

/-! ### Descriptions -/

namespace Json

/-- Whether two values have the same fields, apart from some. -/
def AgreesBut (keys : List Text) (x x' : Json) : Prop := ∀ key, key ∉ keys → x.field? key = x'.field? key

/-- Whether two values describe a model with a name, with other decorators on it and on its properties. -/
structure RedecoratesModel (t : Text) (x x' : Json) : Prop where
  named : x.named = .text t
  fields : x.AgreesBut ["decorators", "properties"] x'
  properties : List.Forall₂ (AgreesBut ["decorators"]) (x.items "properties") (x'.items "properties")

/-- Whether two values describe the same but for the decorators of one model, which has a name and is at a path, and of
its properties. -/
def Redecorates (t : Text) : List Text → Json → Json → Prop
  | [], x, x' => x.AgreesBut ["models"] x' ∧ SameButOne (RedecoratesModel t) (x.items "models") (x'.items "models")
  | n :: path, x, x' => x.AgreesBut ["namespaces"] x'
      ∧ SameButOne (fun y y' => nameOf y = n ∧ Redecorates t path y y') (x.items "namespaces") (x'.items "namespaces")

section

variable {keys path : List Text} {t : Text} {x x' : Json}

theorem AgreesBut.items_eq (h : x.AgreesBut keys x') {key : Text} (hkey : key ∉ keys) : x.items key = x'.items key := by
  rw [items, items, listed?, listed?, h key hkey]

theorem AgreesBut.named_eq (h : x.AgreesBut keys x') (hkey : ("name" : Text) ∉ keys) : x.named = x'.named := by
  rw [named, named, h _ hkey]

theorem AgreesBut.nameOf_eq (h : x.AgreesBut keys x') (hkey : ("name" : Text) ∉ keys) : nameOf x = nameOf x' := by
  rw [nameOf, nameOf, h _ hkey]

theorem Redecorates.nameOf_eq (h : x.Redecorates t path x') : nameOf x = nameOf x' := by
  cases path with
  | nil => exact h.1.nameOf_eq (by decide)
  | cons n path => exact h.1.nameOf_eq (by decide)

end

end Json

/-! ### Entries -/

/-- Two versions of a model that is declared at a path: the same, or those with a name at a certain path, with other
decorators. -/
def ModelEntry.IsRedecorated (q : List Text) (t : Text) (u : List Text) (e e' : ModelEntry) : Prop :=
  e' = e ∨ u = q ∧ e.name = .text t ∧ e'.undecorated = e.undecorated

/-- Two versions of an opening: the models of one correspond to those of the other. -/
def Opening.IsRedecorated (q : List Text) (t : Text) (o o' : Opening) : Prop :=
  o'.1 = o.1 ∧ List.Forall₂ (ModelEntry.IsRedecorated q t o.1) o.2.models o'.2.models

section

variable {q u : List Text} {t : Text}

theorem ModelEntry.IsRedecorated.undecorated_eq {e e' : ModelEntry} (h : e.IsRedecorated q t u e') :
    e'.undecorated = e.undecorated := by
  rcases h with rfl | ⟨-, -, h⟩
  · rfl
  · exact h

theorem ModelEntry.IsRedecorated.name_eq {e e' : ModelEntry} (h : e.IsRedecorated q t u e') : e.name = e'.name :=
  (congrArg ModelEntry.name h.undecorated_eq).symm

theorem Opening.IsRedecorated.refl (o : Opening) : o.IsRedecorated q t o :=
  ⟨rfl, List.forall₂_same.2 fun _ _ => .inl rfl⟩

theorem Opening.isRedecorated_refl (os : List Opening) : List.Forall₂ (IsRedecorated q t) os os :=
  List.forall₂_same.2 fun o _ => .refl o

theorem paths_redecorated {os os' : List Opening} (h : List.Forall₂ (Opening.IsRedecorated q t) os os') :
    paths os = paths os' := by
  have hpaths : os.map Prod.fst = os'.map Prod.fst := map_eq_of_forall₂ (h.imp fun _ _ ho => ho.1.symm)
  rw [paths, paths, hpaths]

theorem models_declared_cons (o : Opening) (os : List Opening) (u : List Text) :
    (declared (o :: os) u).models = (if o.1 = u then o.2.models else []) ++ (declared os u).models := by
  by_cases ho : o.1 = u
  · rw [declared, List.filter_cons_of_pos (by simpa [isAt] using ho), if_pos ho]
    rfl
  · rw [declared, List.filter_cons_of_neg (by simpa [isAt] using ho), if_neg ho]
    rfl

/-- All that is declared at a path corresponds. -/
theorem models_redecorated {os os' : List Opening} (h : List.Forall₂ (Opening.IsRedecorated q t) os os')
    (u : List Text) :
    List.Forall₂ (ModelEntry.IsRedecorated q t u) (declared os u).models (declared os' u).models := by
  induction h with
  | nil => exact .nil
  | @cons o o' os os' ho _ ih =>
    rw [models_declared_cons, models_declared_cons, ho.1]
    refine List.rel_append ?_ ih
    split
    next hat => exact hat ▸ ho.2
    next => exact .nil

end

/-! ### What is described -/

namespace NamespaceEntry

theorem ofJson_eq (x : Json) :
    ofJson x = .entry (nameOf x) (DeclarationEntries.ofJson x) ((x.items "namespaces").map ofJson) := by
  cases x with
  | object fields => rw [ofJson, ofFields_eq]
  | _ => rw [ofJson] <;> first | rfl | simp

end NamespaceEntry

namespace Json

variable {t : Text} {x x' : Json}

theorem AgreesBut.undecorated_property (h : x.AgreesBut ["decorators"] x') :
    (PropertyEntry.ofJson x).undecorated = (PropertyEntry.ofJson x').undecorated := by
  have hname := h.named_eq (by decide)
  have htype := h "type" (by decide)
  have hoptional := h "optional" (by decide)
  simp only [PropertyEntry.undecorated, PropertyEntry.ofJson, hname, htype, hoptional]

theorem RedecoratesModel.undecorated_eq (h : x.RedecoratesModel t x') :
    (ModelEntry.ofJson x).undecorated = (ModelEntry.ofJson x').undecorated := by
  have hname := h.fields.named_eq (by decide)
  have hbase := h.fields "baseModel" (by decide)
  have hproperties : ((x.items "properties").map PropertyEntry.ofJson).map PropertyEntry.undecorated
      = ((x'.items "properties").map PropertyEntry.ofJson).map PropertyEntry.undecorated := by
    rw [List.map_map, List.map_map]
    exact map_eq_of_forall₂ (h.properties.imp fun _ _ hq => hq.undecorated_property)
  simp only [ModelEntry.undecorated, ModelEntry.ofJson, presentField, hname, hbase, hproperties]

theorem RedecoratesModel.isRedecorated (h : x.RedecoratesModel t x') (u : List Text) :
    (ModelEntry.ofJson x).IsRedecorated u t u (ModelEntry.ofJson x') :=
  .inr ⟨rfl, h.named, h.undecorated_eq.symm⟩

/-- Other fields than those of models and of the namespaces inside describe the same. -/
theorem AgreesBut.entries_eq {key : Text} (h : x.AgreesBut [key] x') (hkey : key = "models" ∨ key = "namespaces") :
    DeclarationEntries.ofJson x' =
      { DeclarationEntries.ofJson x with models := (x'.items "models").map ModelEntry.ofJson } := by
  have hitems : ∀ other : Text, other ≠ "models" → other ≠ "namespaces" → x'.items other = x.items other := by
    intro other hmodels hnamespaces
    refine (h.items_eq ?_).symm
    rcases hkey with rfl | rfl
    · simpa using hmodels
    · simpa using hnamespaces
  simp only [DeclarationEntries.ofJson]
  rw [hitems "enums" (by decide) (by decide), hitems "unions" (by decide) (by decide),
    hitems "interfaces" (by decide) (by decide), hitems "operations" (by decide) (by decide)]

theorem AgreesBut.entries_eq_self (h : x.AgreesBut ["namespaces"] x') :
    DeclarationEntries.ofJson x' = DeclarationEntries.ofJson x := by
  rw [h.entries_eq (.inr rfl), ← h.items_eq (by decide)]
  rfl

/-- Descriptions with other decorators are the same without any. -/
theorem Redecorates.undecorated_eq {path : List Text} (h : x.Redecorates t path x') :
    (ofJson x).undecorated = (ofJson x').undecorated := by
  induction path generalizing x x' with
  | nil =>
    obtain ⟨hfields, hmodels⟩ := h
    have hundecorated : ((x.items "models").map ModelEntry.ofJson).map ModelEntry.undecorated
        = ((x'.items "models").map ModelEntry.ofJson).map ModelEntry.undecorated := by
      rw [List.map_map, List.map_map]
      exact map_eq_of_forall₂ (hmodels.forall₂ (fun m m' hm => hm.undecorated_eq) fun m => rfl)
    have hspaces : x.items "namespaces" = x'.items "namespaces" := hfields.items_eq (by decide)
    rw [ofJson_eq, ofJson_eq, hfields.entries_eq (.inl rfl), hfields.nameOf_eq (by decide), hspaces, undecorated,
      undecorated]
    refine congrArg (NamespaceEntry.entry _ · _) ?_
    simp only [DeclarationEntries.undecorated, ← hundecorated]
    rfl
  | cons n path ih =>
    obtain ⟨hfields, hinner⟩ := h
    have hundecorated : undecoratedAll ((x.items "namespaces").map ofJson)
        = undecoratedAll ((x'.items "namespaces").map ofJson) := by
      rw [undecoratedAll_eq, undecoratedAll_eq, List.map_map, List.map_map]
      exact map_eq_of_forall₂ (hinner.forall₂ (fun y y' hy => ih hy.2) fun y => rfl)
    rw [ofJson_eq, ofJson_eq, hfields.entries_eq_self, hfields.nameOf_eq (by decide), undecorated, undecorated,
      hundecorated]

/-- Descriptions with other decorators have the same openings, but for versions of one model. -/
theorem Redecorates.isRedecorated {path : List Text} (h : x.Redecorates t path x') (u : List Text) :
    List.Forall₂ (ModelEntry.IsRedecorated (u ++ path) t u) (DeclarationEntries.ofJson x).models
        (DeclarationEntries.ofJson x').models
      ∧ List.Forall₂ (Opening.IsRedecorated (u ++ path) t) (openingsOf u ((x.items "namespaces").map ofJson))
        (openingsOf u ((x'.items "namespaces").map ofJson)) := by
  induction path generalizing x x' u with
  | nil =>
    obtain ⟨hfields, hmodels⟩ := h
    have hspaces : x.items "namespaces" = x'.items "namespaces" := hfields.items_eq (by decide)
    rw [List.append_nil, hspaces]
    refine ⟨?_, isRedecorated_refl _⟩
    rw [DeclarationEntries.ofJson, DeclarationEntries.ofJson, List.forall₂_map_left_iff, List.forall₂_map_right_iff]
    exact hmodels.forall₂ (fun m m' hm => hm.isRedecorated u) fun m => .inl rfl
  | cons n path ih =>
    obtain ⟨hfields, hinner⟩ := h
    refine ⟨hfields.entries_eq_self ▸ List.forall₂_same.2 fun _ _ => .inl rfl, ?_⟩
    have hstep : ∀ y y', nameOf y = n ∧ y.Redecorates t path y' →
        List.Forall₂ (Opening.IsRedecorated (u ++ n :: path) t) (NamespaceEntry.openings u (ofJson y))
          (NamespaceEntry.openings u (ofJson y')) := by
      rintro y y' ⟨rfl, hy⟩
      obtain ⟨hmodels, hopenings⟩ := ih hy (u ++ [nameOf y])
      rw [List.append_assoc, List.singleton_append] at hmodels hopenings
      rw [ofJson_eq y, ofJson_eq y', ← hy.nameOf_eq, NamespaceEntry.openings, NamespaceEntry.openings]
      exact .cons ⟨rfl, hmodels⟩ hopenings
    generalize x.items "namespaces" = items at hinner
    generalize x'.items "namespaces" = items' at hinner
    induction hinner with
    | refl l => exact isRedecorated_refl _
    | head l hy => exact List.rel_append (hstep _ _ hy) (isRedecorated_refl _)
    | cons y _ ih => exact List.rel_append (isRedecorated_refl _) ih

/-- The openings of descriptions with other decorators correspond. -/
theorem Redecorates.openings {path : List Text} (h : x.Redecorates t path x') :
    List.Forall₂ (Opening.IsRedecorated path t) x.openings x'.openings :=
  List.rel_append (isRedecorated_refl _) (h.isRedecorated []).2

end Json

namespace Program

open Declarations

section

variable {data data' : Json} {p p' : Program} {t : Text} {path : List Text}

theorem undecorated_of_nil {d : Declarations} (h : d.decorations = []) : d.undecorated = d := by
  cases d
  cases h
  rfl

theorem undecorated_ofDescription (es : List NamespaceEntry) :
    (ofDescription es).undecorated = ofDescription (undecoratedAll es) := by
  rw [ofDescription, ofDescription, undecorated_declareNamespaces, undecorated_of_nil decorations_initial]

/-- Other decorators declare the same, but for the decorators. -/
theorem declared_redecorated (h : data.Redecorates t path data') :
    (ofDescription data.outline).undecorated = (ofDescription data'.outline).undecorated := by
  have houtline : undecoratedAll data.outline = undecoratedAll data'.outline := by
    have hroot := h.undecorated_eq
    rw [ofJson_eq, ofJson_eq, NamespaceEntry.undecorated, NamespaceEntry.undecorated] at hroot
    exact congrArg NamespaceEntry.children hroot
  rw [undecorated_ofDescription, undecorated_ofDescription, houtline]

/-- Other decorators give interfaces the same routes. -/
theorem store_redecorated (h : data.Redecorates t path data') :
    (ofDescription data.outline).store = (ofDescription data'.outline).store := by
  show (ofDescription data.outline).undecorated.store = (ofDescription data'.outline).undecorated.store
  rw [declared_redecorated h]

/-- Descriptions with other decorators are loaded into one graph. -/
theorem graph_redecorated (h : load data = .ok p) (h' : load data' = .ok p') (hdata : data.Redecorates t path data') :
    p.graph = p'.graph := by
  obtain ⟨-, hsettle⟩ := settleAll_of_load h
  obtain ⟨-, hsettle'⟩ := settleAll_of_load h'
  have hsame : (ofDescription data.outline).settleAll = (ofDescription data'.outline).settleAll := by
    rw [← settleAll_undecorated, declared_redecorated hdata, settleAll_undecorated]
  exact Except.ok.inj (hsettle.symm.trans (hsame.trans hsettle'))

end

end Program

end Edm
