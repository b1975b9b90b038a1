import Mathlib.Logic.Relation
import Mathlib.Data.List.Nodup
import FlagAudit.Config.Basic

/-!
# Settings over the defaults

Settings come to a configuration if they are a table. Each list of the configuration is then taken from the
table, under one of two names, or it is the default (`Overlays`). Nothing else in the table counts: fields
whose values are not taken under their names can be put in and left out, items that are no texts too, and
the fields can be in any order (`Irrelevant`). So a configuration that is written out as a table is read back
from it, whatever of this kind is done to the table (`ofSetting_overlays`).
-/

namespace FlagAudit.Config

variable {fields fields' before after : List (String × Setting)} {name : String} {value raw : Setting}
  {items : List Setting} {texts : List String} {c : Config}

/-! ### The lists of a configuration -/

/-- A list of a configuration. -/
inductive Listing where
  /-- The patterns of the files to look at. -/
  | includes
  /-- The patterns of the files to leave out. -/
  | excludes
  /-- The patterns that find references. -/
  | patterns
  /-- The prefixes of names in the environment. -/
  | prefixes
  deriving DecidableEq, Repr

namespace Listing

/-- The name of a list in a table. -/
def snakeCase : Listing → String
  | includes => "include"
  | excludes => "exclude"
  | patterns => "flag_patterns"
  | prefixes => "env_var_prefixes"

/-- Another name of a list in a table, which counts before the first one. -/
def camelCase? : Listing → Option String
  | includes | excludes => none
  | patterns => some "flagPatterns"
  | prefixes => some "envVarPrefixes"

/-- The names of a list in a table. -/
def names (l : Listing) : List String := l.snakeCase :: l.camelCase?.toList

/-- A list of a configuration. -/
def of (c : Config) : Listing → List String
  | includes => c.includes
  | excludes => c.excludes
  | patterns => c.patterns
  | prefixes => c.prefixes

end Listing

/-- A configuration consists of its lists and of whether it is strict. -/
theorem eq_of_listings {c c' : Config} (hlists : ∀ l : Listing, l.of c = l.of c')
    (hstrict : c.strict = c'.strict) : c = c' := by
  cases c
  cases c'
  congr
  · exact hlists .includes
  · exact hlists .excludes
  · exact hlists .patterns
  · exact hlists .prefixes

/-! ### What a table says -/

/-- The texts among some settings, in their order. -/
inductive Texts : List Setting → List String → Prop where
  /-- There are no settings. -/
  | nil : Texts [] []
  /-- A text is kept. -/
  | text {v : String} {items : List Setting} {texts : List String} (h : Texts items texts) :
      Texts (.text v :: items) (v :: texts)
  /-- Anything else is left out. -/
  | other {x : Setting} {items : List Setting} {texts : List String} (hx : ∀ v, x ≠ .text v)
      (h : Texts items texts) : Texts (x :: items) texts

/-- A table has a list under a name, with some texts in it. -/
def HasList (raw : Setting) (name : String) (texts : List String) : Prop :=
  ∃ items, raw.field? name = some (.list items) ∧ Texts items texts

/-- A table has no list under a name. -/
def HasNoList (raw : Setting) (name : String) : Prop := ∀ items, raw.field? name ≠ some (.list items)

/-- What a table says about a list of the configuration. -/
inductive Overlays (raw : Setting) (l : Listing) : List String → Prop where
  /-- It has a list under the other name. -/
  | camelCase {name : String} {texts : List String} (hname : l.camelCase? = some name)
      (h : HasList raw name texts) : Overlays raw l texts
  /-- It has a list under the first name, and none under the other one. -/
  | snakeCase {texts : List String} (hcamel : ∀ name, l.camelCase? = some name → HasNoList raw name)
      (h : HasList raw l.snakeCase texts) : Overlays raw l texts
  /-- It has no list under either name, and the default remains. -/
  | default (hcamel : ∀ name, l.camelCase? = some name → HasNoList raw name)
      (hsnake : HasNoList raw l.snakeCase) : Overlays raw l (l.of {})

/-- The texts of the list that a table has under a name. -/
def listAt (raw : Setting) (name : String) : Option (List String) := (raw.field? name).bind Setting.texts?

/-- A truth value. -/
def flag? : Setting → Option Bool
  | .flag value => some value
  | _ => none

/-- The truth value that a table has under the name of the strict mode. -/
def flagAt (raw : Setting) : Option Bool := (raw.field? "strict").bind flag?

theorem texts?_list_cons_text (v : String) (items : List Setting) :
    (Setting.list (.text v :: items)).texts? = (Setting.list items).texts?.map (v :: ·) := rfl

theorem texts?_list_cons_of_not_text {x : Setting} (hx : ∀ v, x ≠ .text v) (items : List Setting) :
    (Setting.list (x :: items)).texts? = (Setting.list items).texts? := by
  cases x with
  | text v => exact absurd rfl (hx v)
  | _ => rfl

theorem texts_iff : Texts items texts ↔ (Setting.list items).texts? = some texts := by
  constructor
  · intro h
    induction h with
    | nil => rfl
    | text h ih =>
      rw [texts?_list_cons_text, ih]
      rfl
    | other hx h ih => rw [texts?_list_cons_of_not_text hx, ih]
  · intro h
    induction items generalizing texts with
    | nil =>
      cases h
      exact .nil
    | cons x items ih =>
      by_cases hx : ∃ v, x = .text v
      · obtain ⟨v, rfl⟩ := hx
        rw [texts?_list_cons_text, Option.map_eq_some_iff] at h
        obtain ⟨rest, hrest, rfl⟩ := h
        exact .text (ih hrest)
      · rw [not_exists] at hx
        rw [texts?_list_cons_of_not_text hx] at h
        exact .other hx (ih h)

theorem hasList_iff : HasList raw name texts ↔ listAt raw name = some texts := by
  simp only [HasList, listAt, Option.bind_eq_some_iff, texts_iff]
  constructor
  · rintro ⟨items, hfield, htexts⟩
    exact ⟨_, hfield, htexts⟩
  · rintro ⟨value, hfield, htexts⟩
    cases value with
    | list items => exact ⟨items, hfield, htexts⟩
    | _ => cases htexts

theorem hasNoList_iff : HasNoList raw name ↔ listAt raw name = none := by
  simp only [HasNoList, listAt, Option.bind_eq_none_iff]
  constructor
  · intro h value hfield
    cases value with
    | list items => exact absurd hfield (h items)
    | _ => rfl
  · intro h items hfield
    exact Option.some_ne_none _ (h _ hfield)

/-- The last name with a list counts. -/
theorem lastList_eq (l : Listing) :
    lastList raw l.names (l.of {}) =
      ((l.camelCase?.bind (listAt raw)).or (listAt raw l.snakeCase)).getD (l.of {}) := by
  rw [lastList, Listing.names]
  cases l.camelCase? with
  | none => simp [listAt]
  | some name =>
    simp only [Option.toList_some, List.reverse_cons, List.reverse_nil, List.nil_append,
      List.singleton_append, List.findSome?_cons, List.findSome?_nil, Option.bind_some, listAt]
    cases (raw.field? name).bind Setting.texts? <;>
      cases (raw.field? l.snakeCase).bind Setting.texts? <;> rfl

theorem overlays_iff (l : Listing) : Overlays raw l texts ↔ lastList raw l.names (l.of {}) = texts := by
  rw [lastList_eq]
  constructor
  · rintro (⟨hname, h⟩ | ⟨hcamel, h⟩ | ⟨hcamel, hsnake⟩)
    · rw [hname, Option.bind_some, hasList_iff.mp h]
      rfl
    all_goals
      have hnone : l.camelCase?.bind (listAt raw) = none := by
        rw [Option.bind_eq_none_iff]
        exact fun name hname => hasNoList_iff.mp (hcamel name hname)
      rw [hnone, Option.none_or]
    · rw [hasList_iff.mp h]
      rfl
    · rw [hasNoList_iff.mp hsnake]
      rfl
  · rintro rfl
    cases hcamel : l.camelCase?.bind (listAt raw) with
    | some ts =>
      obtain ⟨name, hname, hlist⟩ := Option.bind_eq_some_iff.mp hcamel
      exact .camelCase hname (hasList_iff.mpr hlist)
    | none =>
      have hno : ∀ name, l.camelCase? = some name → HasNoList raw name :=
        fun name hname => hasNoList_iff.mpr (Option.bind_eq_none_iff.mp hcamel name hname)
      cases hsnake : listAt raw l.snakeCase with
      | some ts => exact .snakeCase hno (hasList_iff.mpr hsnake)
      | none => exact .default hno (hasNoList_iff.mpr hsnake)

/-! ### What a table comes to -/

/-- Settings fail to be a configuration exactly if they are no table. -/
theorem ofSetting_error_iff {path : Option String} {e : Failure} :
    ofSetting raw path = .error e ↔ (∀ fields, raw ≠ .table fields) ∧
      e = .configuration "Configuration must be an object" path none := by
  cases raw <;> simp [ofSetting, eq_comm]

/-- A table comes to a configuration, list by list. -/
theorem exists_ofSetting (fields : List (String × Setting)) (path : Option String) :
    ∃ c, ofSetting (.table fields) path = .ok c ∧
      (∀ l : Listing, l.of c = lastList (.table fields) l.names (l.of {})) ∧
      c.strict = (flagAt (.table fields)).getD false := by
  refine ⟨_, rfl, fun l => by cases l <;> rfl, ?_⟩
  simp only [flagAt]
  cases (Setting.table fields).field? "strict" with
  | none => rfl
  | some value => cases value <;> rfl

/-- Tables with the same lists and the same truth value come to the same configuration. -/
theorem ofSetting_congr {path : Option String}
    (hlists : ∀ l : Listing, ∀ name ∈ l.names,
      listAt (.table fields) name = listAt (.table fields') name)
    (hflag : flagAt (.table fields) = flagAt (.table fields')) :
    ofSetting (.table fields) path = ofSetting (.table fields') path := by
  obtain ⟨c, hc, hlist, hstrict⟩ := exists_ofSetting fields path
  obtain ⟨c', hc', hlist', hstrict'⟩ := exists_ofSetting fields' path
  rw [hc, hc']
  congr 1
  refine eq_of_listings (fun l => ?_) (by rw [hstrict, hstrict', hflag])
  rw [hlist, hlist', lastList_eq, lastList_eq, hlists l l.snakeCase List.mem_cons_self]
  cases hcamel : l.camelCase? with
  | none => rfl
  | some name =>
    have hname : name ∈ l.names := by simp [Listing.names, hcamel]
    rw [Option.bind_some, Option.bind_some, hlists l name hname]

/-! ### What does not count -/

/-- A value is taken under a name. -/
inductive Fits : String → Setting → Prop where
  /-- A list, under a name of a list of the configuration. -/
  | list {l : Listing} {name : String} {items : List Setting} (hname : name ∈ l.names) :
      Fits name (.list items)
  /-- A truth value, under the name of the strict mode. -/
  | flag {value : Bool} : Fits "strict" (.flag value)

theorem fits_list_iff : Fits name (.list items) ↔ ∃ l : Listing, name ∈ l.names := by
  constructor
  · intro h
    cases h with
    | list hname => exact ⟨_, hname⟩
  · rintro ⟨l, hname⟩
    exact .list hname

theorem not_fits_text (name text : String) : ¬ Fits name (.text text) := by
  intro h
  cases h

/-- The fields of a table are changed in a way that makes no difference. -/
inductive Irrelevant : List (String × Setting) → List (String × Setting) → Prop where
  /-- A field is put in whose value is not taken under its name. -/
  | misfit {before after : List (String × Setting)} {name : String} {value : Setting}
      (hnew : name ∉ (before ++ after).map (·.1)) (hvalue : ¬ Fits name value) :
      Irrelevant (before ++ after) (before ++ (name, value) :: after)
  /-- An item that is no text is put into a list. -/
  | item {before after : List (String × Setting)} {name : String} {items items' : List Setting}
      {x : Setting} (hx : ∀ v, x ≠ .text v) :
      Irrelevant (before ++ (name, .list (items ++ items')) :: after)
        (before ++ (name, .list (items ++ x :: items')) :: after)
  /-- The fields, which have different names, are put into another order. -/
  | order {fields fields' : List (String × Setting)} (hnames : (fields.map (·.1)).Nodup)
      (hperm : fields.Perm fields') : Irrelevant fields fields'

theorem field?_append (before after : List (String × Setting)) (name : String) :
    (Setting.table (before ++ after)).field? name =
      ((Setting.table after).field? name).or ((Setting.table before).field? name) := by
  simp only [Setting.field?, List.reverse_append, List.find?_append, Option.map_or]

theorem field?_cons_self (name : String) (value : Setting) (after : List (String × Setting)) :
    (Setting.table ((name, value) :: after)).field? name =
      ((Setting.table after).field? name).or (some value) := by
  rw [← List.singleton_append, field?_append]
  simp [Setting.field?]

theorem field?_cons_of_ne {other : String} (h : other ≠ name) (value : Setting)
    (after : List (String × Setting)) :
    (Setting.table ((other, value) :: after)).field? name = (Setting.table after).field? name := by
  rw [← List.singleton_append, field?_append]
  simp [Setting.field?, h]

theorem field?_eq_none (h : name ∉ fields.map (·.1)) : (Setting.table fields).field? name = none := by
  simp only [Setting.field?, Option.map_eq_none_iff, List.find?_eq_none, List.mem_reverse, beq_iff_eq]
  rintro f hf rfl
  exact h (List.mem_map_of_mem hf)

/-- A field among others does not change what they have under other names. -/
theorem field?_insert_of_ne {other : String} (h : other ≠ name) :
    (Setting.table (before ++ (other, value) :: after)).field? name =
      (Setting.table (before ++ after)).field? name := by
  rw [field?_append, field?_append, field?_cons_of_ne h]

/-- Among fields with different names, each has its value under its name. -/
theorem field?_eq_some_iff (h : (fields.map (·.1)).Nodup) :
    (Setting.table fields).field? name = some value ↔ (name, value) ∈ fields := by
  induction fields with
  | nil => simp [Setting.field?]
  | cons f fs ih =>
    obtain ⟨first, firstValue⟩ := f
    rw [List.map_cons, List.nodup_cons] at h
    by_cases hname : first = name
    · subst hname
      rw [field?_cons_self, field?_eq_none h.1, Option.none_or, Option.some.injEq, List.mem_cons]
      constructor
      · rintro rfl
        exact .inl rfl
      · rintro (heq | hmem)
        · exact (Prod.mk.inj heq).2.symm
        · exact absurd (List.mem_map_of_mem hmem) h.1
    · rw [field?_cons_of_ne hname, ih h.2, List.mem_cons]
      constructor
      · exact .inr
      · rintro (heq | hmem)
        · exact absurd (Prod.mk.inj heq).1.symm hname
        · exact hmem

/-- The order of fields with different names does not count. -/
theorem field?_of_perm (hnames : (fields.map (·.1)).Nodup) (hperm : fields.Perm fields') (name : String) :
    (Setting.table fields).field? name = (Setting.table fields').field? name := by
  have hnames' : (fields'.map (·.1)).Nodup := (hperm.map _).nodup_iff.mp hnames
  ext value
  rw [field?_eq_some_iff hnames, field?_eq_some_iff hnames', hperm.mem_iff]

theorem texts?_insert {x : Setting} (hx : ∀ v, x ≠ .text v) (items items' : List Setting) :
    (Setting.list (items ++ x :: items')).texts? = (Setting.list (items ++ items')).texts? := by
  have hnone : (Setting.list [x]).texts? = some [] := texts?_list_cons_of_not_text hx []
  simp only [Setting.texts?, Option.some.injEq] at hnone ⊢
  rw [List.filterMap_append, List.filterMap_append, ← List.singleton_append, List.filterMap_append, hnone,
    List.nil_append]

/-- A change that makes no difference keeps what is seen under a name, if nothing is seen of values that are
not taken there, nor of items that are no texts. -/
theorem Irrelevant.bind_field?_eq {α : Type} {view : Setting → Option α} (h : Irrelevant fields fields')
    (hmisfit : ∀ value, ¬ Fits name value → view value = none)
    (hitem : ∀ items items' x, (∀ v, x ≠ Setting.text v) →
      view (.list (items ++ x :: items')) = view (.list (items ++ items'))) :
    ((Setting.table fields).field? name).bind view =
      ((Setting.table fields').field? name).bind view := by
  cases h with
  | @misfit before after other value hnew hvalue =>
    by_cases heq : other = name
    · subst heq
      have hnone : (Setting.table (before ++ after)).field? other = none := field?_eq_none hnew
      rw [List.map_append, List.mem_append, not_or] at hnew
      rw [hnone, field?_append, field?_cons_self, field?_eq_none hnew.2, Option.none_or, Option.some_or]
      exact (hmisfit value hvalue).symm
    · rw [field?_insert_of_ne heq]
  | @item before after other items items' x hx =>
    by_cases heq : other = name
    · subst heq
      rw [field?_append, field?_append, field?_cons_self, field?_cons_self]
      cases (Setting.table after).field? other with
      | some value => rfl
      | none => exact (hitem items items' x hx).symm
    · rw [field?_insert_of_ne heq, field?_insert_of_ne heq]
  | order hnames hperm => rw [field?_of_perm hnames hperm]

/-- A change that makes no difference keeps each list. -/
theorem Irrelevant.listAt_eq (h : Irrelevant fields fields') {l : Listing} (hname : name ∈ l.names) :
    listAt (.table fields) name = listAt (.table fields') name := by
  refine h.bind_field?_eq (fun value hvalue => ?_) fun items items' x hx => texts?_insert hx items items'
  cases value with
  | list items => exact absurd (.list hname) hvalue
  | _ => rfl

/-- A change that makes no difference keeps the truth value. -/
theorem Irrelevant.flagAt_eq (h : Irrelevant fields fields') :
    flagAt (.table fields) = flagAt (.table fields') := by
  refine h.bind_field?_eq (fun value hvalue => ?_) fun _ _ _ _ => rfl
  cases value with
  | flag value => exact absurd .flag hvalue
  | _ => rfl

/-- However many changes are made that make no difference, a table comes to the same configuration. -/
theorem ofSetting_eq_of_irrelevant {path : Option String} (h : Relation.EqvGen Irrelevant fields fields') :
    ofSetting (.table fields) path = ofSetting (.table fields') path := by
  induction h with
  | rel fields fields' h => exact ofSetting_congr (fun l name hname => h.listAt_eq hname) h.flagAt_eq
  | refl fields => rfl
  | symm _ _ _ ih => exact ih.symm
  | trans _ _ _ _ _ ih ih' => exact ih.trans ih'

/-! ### Configurations as tables -/

/-- A configuration written out: the fields of a table, each under the first name it has. -/
def fieldsOf (c : Config) : List (String × Setting) :=
  [Listing.includes, .excludes, .patterns, .prefixes].map
    (fun l => (l.snakeCase, .list ((l.of c).map .text))) ++ [("strict", .flag c.strict)]

theorem texts?_map_text (texts : List String) : (Setting.list (texts.map .text)).texts? = some texts := by
  induction texts with
  | nil => rfl
  | cons v texts ih => rw [List.map_cons, texts?_list_cons_text, ih, Option.map_some]

theorem nodup_fieldsOf (c : Config) : ((fieldsOf c).map (·.1)).Nodup := by
  simp [fieldsOf, Listing.snakeCase]

/-- A configuration that is written out is read back. -/
theorem ofSetting_fieldsOf (c : Config) (path : Option String) :
    ofSetting (.table (fieldsOf c)) path = .ok c := by
  obtain ⟨c', hc', hlist, hstrict⟩ := exists_ofSetting (fieldsOf c) path
  rw [hc']
  congr 1
  refine eq_of_listings (fun l => ?_) ?_
  · have hsnake : listAt (.table (fieldsOf c)) l.snakeCase = some (l.of c) := by
      have hmem : (l.snakeCase, Setting.list ((l.of c).map .text)) ∈ fieldsOf c := by
        cases l <;> simp [fieldsOf]
      rw [listAt, (field?_eq_some_iff (nodup_fieldsOf c)).mpr hmem, Option.bind_some, texts?_map_text]
    have hcamel : l.camelCase?.bind (listAt (.table (fieldsOf c))) = none := by
      rw [Option.bind_eq_none_iff]
      intro name hname
      have hnot : name ∉ (fieldsOf c).map (·.1) := by
        cases l <;> cases hname <;> simp [fieldsOf, Listing.snakeCase]
      rw [listAt, field?_eq_none hnot]
      rfl
    rw [hlist, lastList_eq, hcamel, hsnake]
    rfl
  · have hmem : ("strict", Setting.flag c.strict) ∈ fieldsOf c := by simp [fieldsOf]
    rw [hstrict, flagAt, (field?_eq_some_iff (nodup_fieldsOf c)).mpr hmem]
    rfl

/-- Settings fail to be a configuration exactly if they are no table. A table comes to a configuration that
has each list as the table says, and is strict exactly if the table says so. Changes that make no difference
to a table make none to the configuration; and from a configuration that is written out, whatever changes of
this kind are made to it, the configuration is read back. -/
theorem ofSetting_overlays (path : Option String) :
    (∀ raw e, ofSetting raw path = .error e ↔ (∀ fields, raw ≠ .table fields) ∧
      e = .configuration "Configuration must be an object" path none) ∧
    (∀ fields, ∃ c, ofSetting (.table fields) path = .ok c ∧
      (∀ (l : Listing) texts, Overlays (.table fields) l texts ↔ l.of c = texts) ∧
      (c.strict = true ↔ (Setting.table fields).field? "strict" = some (.flag true))) ∧
    (∀ fields fields', Relation.EqvGen Irrelevant fields fields' →
      ofSetting (.table fields) path = ofSetting (.table fields') path) ∧
    ∀ c fields, Relation.EqvGen Irrelevant (fieldsOf c) fields →
      ofSetting (.table fields) path = .ok c := by
  refine ⟨fun raw e => ofSetting_error_iff, fun fields => ?_, fun _ _ => ofSetting_eq_of_irrelevant,
    fun c fields h => ?_⟩
  · obtain ⟨c, hc, hlist, hstrict⟩ := exists_ofSetting fields path
    refine ⟨c, hc, fun l texts => by rw [overlays_iff, hlist], ?_⟩
    rw [hstrict, flagAt]
    cases (Setting.table fields).field? "strict" with
    | none => simp
    | some value => cases value <;> simp [flag?]
  · rw [← ofSetting_eq_of_irrelevant h, ofSetting_fieldsOf]

/-- A configuration in strict mode. -/
def strictConfig : Config := ⟨["*.ts"], [], ["on\\('([a-z]+)'\\)"], ["X_"], true⟩

/-- The fields of a configuration in another order, with an unknown field, an item that is no text, and no
list under the other name of a list. -/
def oddFields : List (String × Setting) :=
  [("strict", .flag true), ("env_var_prefixes", .list [.other true, .text "X_"]),
    ("flag_patterns", .list [.text "on\\('([a-z]+)'\\)"]), ("exclude", .list []),
    ("include", .list [.text "*.ts"]), ("extra", .list [.text "*.js"]), ("flagPatterns", .text "*")]

theorem irrelevant_oddFields : Relation.EqvGen Irrelevant (fieldsOf strictConfig) oddFields := by
  have hunknown : ¬ Fits "extra" (.list [.text "*.js"]) := by
    rw [fits_list_iff, not_exists]
    intro l
    cases l <;> decide
  have hmisfit := @Irrelevant.misfit [] (fieldsOf strictConfig) "extra" _ (by decide) hunknown
  have hmisfit' := @Irrelevant.misfit [] (("extra", .list [.text "*.js"]) :: fieldsOf strictConfig)
    "flagPatterns" _ (by decide) (not_fits_text "flagPatterns" "*")
  have hitem := @Irrelevant.item (oddFields.reverse.take 5) [("strict", .flag true)] "env_var_prefixes" []
    [.text "X_"] (.other true) (by simp)
  have horder : Irrelevant oddFields.reverse oddFields :=
    .order (by decide) (List.reverse_perm oddFields)
  exact (((Relation.EqvGen.rel _ _ hmisfit).trans _ _ _ (.rel _ _ hmisfit')).trans _ _ _
    (.rel _ _ hitem)).trans _ _ _ (.rel _ _ horder)

/-- Nothing of this comes to the configuration. -/
theorem ofSetting_oddFields : Relation.EqvGen Irrelevant (fieldsOf strictConfig) oddFields ∧
    ofSetting (.table oddFields) none = .ok strictConfig :=
  ⟨irrelevant_oddFields, (ofSetting_overlays none).2.2.2 strictConfig oddFields irrelevant_oddFields⟩

end FlagAudit.Config
