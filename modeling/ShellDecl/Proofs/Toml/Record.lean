import ShellDecl.Settings.Shape
import ShellDecl.Toml.Decoder

/-!
# Records of TOML

What a record is decoded to depends on nothing but the values that its fields have: in a table the value under a name
of the field, in a list the one at its place. So what settings and configurations hold can be read off the values.
-/

set_option autoImplicit false

namespace ShellDecl

namespace Toml

namespace Item

def field? (names : List String) (index : Nat) : Item → Option Item
  | .table t => (t.entries.find? fun e => names.contains e.1.name).map (·.2)
  | .array _ items => items[index]?
  | .tables elements => (elements.map Item.table)[index]?
  | .scalar _ _ => none

def text? : Item → Option String
  | .scalar _ (.string s) => some s
  | _ => none

def boolean? : Item → Option Bool
  | .scalar _ (.boolean b) => some b
  | _ => none

def natural? : Item → Option Nat
  | .scalar _ (.integer i) => some i.toNat
  | _ => none

end Item

namespace Decoder

theorem text?_of_string {v : Item} {s : String} (h : string v = .ok s) : v.text? = some s := by
  unfold string at h
  split at h
  · exact congrArg some (Except.ok.inj h)
  · cases h

theorem boolean?_of_boolean {v : Item} {b : Bool} (h : boolean v = .ok b) : v.boolean? = some b := by
  unfold boolean at h
  split at h
  · exact congrArg some (Except.ok.inj h)
  · cases h

theorem natural?_of_word {v : Item} {n : Nat} (h : word v = .ok n) : v.natural? = some n := by
  unfold word at h
  split at h
  · split at h
    · exact congrArg some (Except.ok.inj h)
    · cases h
  · cases h

variable {σ α β : Type}

theorem of_optional {decode : Decoder β} {v : Item} {b? : Option β} (h : optional decode v = .ok b?) :
    ∃ b, decode v = .ok b ∧ b? = some b := by
  unfold optional at h
  cases hv : decode v with
  | error e =>
    rw [hv] at h
    cases h
  | ok b =>
    rw [hv] at h
    exact ⟨b, rfl, (Except.ok.inj h).symm⟩

def Reads (decode : Decoder β) (v? : Option Item) (found? : Option β) : Prop :=
  match v? with
  | some v => ∃ b, decode v = .ok b ∧ found? = some b
  | none => found? = none

theorem Reads.eq_bind {decode : Decoder β} {plain : Item → Option β} {v? : Option Item} {found? : Option β}
    (h : Reads decode v? found?) (hplain : ∀ v b, decode v = .ok b → plain v = some b) :
    found? = v?.bind plain := by
  cases v? with
  | none => exact h
  | some v =>
    obtain ⟨b, hb, rfl⟩ := h
    exact (hplain v b hb).symm

theorem Reads.eq_map {decode : Decoder β} {plain : Item → β} {v? : Option Item} {found? : Option β}
    (h : Reads decode v? found?) (hplain : ∀ v b, decode v = .ok b → b = plain v) : found? = v?.map plain := by
  rw [h.eq_bind fun v b hb => congrArg some (hplain v b hb).symm]
  cases v? <;> rfl

theorem Reads.getD_optional {decode : Decoder β} {plain : Item → Option β} {v? : Option Item}
    {found? : Option (Option β)} (h : Reads (optional decode) v? found?)
    (hplain : ∀ v b, decode v = .ok b → plain v = some b) : found?.getD none = v?.bind plain := by
  cases v? with
  | none => exact congrArg (Option.getD · none) h
  | some v =>
    obtain ⟨b?, hb?, rfl⟩ := h
    obtain ⟨b, hb, rfl⟩ := of_optional hb?
    exact (hplain v b hb).symm

/-- The field has none of the names, and is stored elsewhere. -/
def Aside (names : List String) (get : σ → Option β) (f : Field σ Item Fault) : Prop :=
  (∀ k ∈ f.names, k ∉ names) ∧ ∀ v x x', f.decode v x = .ok x' → get x' = get x

/-- The field at a place is stored where `get` finds it, and every other is aside. -/
structure Column (s : Shape σ α Item Fault) (index : Nat) (names : List String) (get : σ → Option β)
    (decode : Decoder β) : Prop where
  own : ∃ set, s.fields[index]? = some (.defaulted names get set decode) ∧ ∀ b x, get (set b x) = some b
  other : ∀ i f, s.fields[i]? = some f → i ≠ index → Aside names get f
  fresh : get s.empty = none

variable {s : Shape σ α Item Fault} {index : Nat} {names : List String} {get : σ → Option β} {decode : Decoder β}

theorem decode_defaulted_eq_ok {set : β → σ → σ} {v : Item} {x x' : σ}
    (h : (Field.defaulted names get set decode).decode v x = .ok x') : ∃ b, decode v = .ok b ∧ x' = set b x := by
  have hmap : (decode v).map (set · x) = .ok x' := h
  cases hv : decode v with
  | error e =>
    rw [hv] at hmap
    cases hmap
  | ok b =>
    rw [hv] at hmap
    exact ⟨b, rfl, (Except.ok.inj hmap).symm⟩

theorem decode_defaulted_of_ok {set : β → σ → σ} {v : Item} {b : β} (h : decode v = .ok b) (x : σ) :
    (Field.defaulted names get set decode).decode v x = .ok (set b x) :=
  congrArg (Except.map (set · x)) h

theorem conclude_eq_ok {x : σ} {a : α} (h : conclude s x = .ok a) : s.finish x = .ok a := by
  unfold conclude at h
  cases hfinish : s.finish x with
  | error e =>
    rw [hfinish] at h
    cases h
  | ok b =>
    rw [hfinish] at h
    exact congrArg _ (Except.ok.inj h)

theorem aside_defaulted {γ : Type} {names' : List String} {get' : σ → Option γ} {set' : γ → σ → σ}
    {decode' : Decoder γ} (hnames : ∀ k ∈ names', k ∉ names) (hkeeps : ∀ c x, get (set' c x) = get x) :
    Aside names get (.defaulted names' get' set' decode') := by
  refine ⟨hnames, fun v x x' h => ?_⟩
  obtain ⟨c, -, rfl⟩ := decode_defaulted_eq_ok h
  exact hkeeps c x

theorem Column.between (before after : List (Field σ Item Fault)) {set : β → σ → σ}
    (hfields : s.fields = before ++ .defaulted names get set decode :: after)
    (hget : ∀ b x, get (set b x) = some b) (hother : ∀ f ∈ before ++ after, Aside names get f)
    (hfresh : get s.empty = none) : Column s before.length names get decode := by
  refine ⟨⟨set, by rw [hfields]; simp, hget⟩, fun i f hf hne => hother f ?_, hfresh⟩
  rw [hfields] at hf
  obtain hlt | hgt := Nat.lt_or_gt_of_ne hne
  · rw [List.getElem?_append_left hlt] at hf
    exact List.mem_append_left _ (List.mem_of_getElem? hf)
  · rw [List.getElem?_append_right (Nat.le_of_lt hgt), List.getElem?_cons, if_neg (by omega)] at hf
    exact List.mem_append_right _ (List.mem_of_getElem? hf)

theorem Column.field?_eq (column : Column s index names get decode) {k : String} {f : Field σ Item Fault}
    (h : s.field? k = some f) :
    (k ∈ names ∧ ∃ set, f = .defaulted names get set decode ∧ ∀ b x, get (set b x) = some b) ∨
      k ∉ names ∧ ∀ v x x', f.decode v x = .ok x' → get x' = get x := by
  obtain ⟨i, hi⟩ := List.mem_iff_getElem?.mp (List.mem_of_find?_eq_some h)
  have hk : k ∈ f.names := by simpa using List.find?_some h
  by_cases hindex : i = index
  · obtain ⟨set, hset, hget⟩ := column.own
    rw [← hindex, hi] at hset
    obtain rfl := Option.some.inj hset
    exact .inl ⟨hk, set, rfl, hget⟩
  · obtain ⟨hnames, hkeeps⟩ := column.other i f hi hindex
    exact .inr ⟨hnames k hk, hkeeps⟩

theorem Column.not_mem (column : Column s index names get decode) {k : String} (h : s.field? k = none) :
    k ∉ names := by
  obtain ⟨set, hset, -⟩ := column.own
  simpa [Field.defaulted] using List.find?_eq_none.mp h _ (List.mem_of_getElem? hset)

/-! ## Tables and lists -/

theorem ofEntries_cons {k : Key} {v : Item} {rest : List (Key × Item)} {x x' : σ} {f : Field σ Item Fault}
    (hfield : s.field? k.name = some f) (hfresh : f.isSet x = false) (hdecode : f.decode v x = .ok x') :
    ofEntries s x ((k, v) :: rest) = ofEntries s x' rest := by
  rw [ofEntries]
  simp [hfield, hfresh, hdecode]

theorem record_table {t : Table} {a : α} (h : ofEntries s s.empty t.entries = .ok a) : record s (.table t) = .ok a :=
  congrArg (Except.mapError (Fault.settle (Item.table t).span)) h

/-- A column keeps what it has; where it has nothing, it gets the first value under one of the names. -/
theorem ofEntries_eq_ok {x : σ} {entries : List (Key × Item)} {a : α} (h : ofEntries s x entries = .ok a) :
    ∃ y, s.finish y = .ok a ∧ ∀ {β : Type} {index names} {get : σ → Option β} {decode},
      Column s index names get decode →
        (∀ b, get x = some b → get y = some b) ∧
          (get x = none →
            Reads decode ((entries.find? fun e => names.contains e.1.name).map (·.2)) (get y)) := by
  induction entries generalizing x with
  | nil => exact ⟨x, conclude_eq_ok h, fun _ => ⟨fun _ => id, id⟩⟩
  | cons entry rest ih =>
    obtain ⟨k, v⟩ := entry
    simp only [ofEntries] at h
    cases hfield : s.field? k.name with
    | none =>
      simp only [hfield] at h
      obtain ⟨y, hy, hread⟩ := ih h
      refine ⟨y, hy, fun column => ?_⟩
      have hk := column.not_mem hfield
      simpa [List.find?_cons, hk] using hread column
    | some f =>
      simp only [hfield] at h
      split at h
      · cases h
      · rename_i hset
        cases hdecode : f.decode v x with
        | error e =>
          simp only [hdecode] at h
          cases h
        | ok x' =>
          simp only [hdecode] at h
          obtain ⟨y, hy, hread⟩ := ih h
          refine ⟨y, hy, fun {β index names get decode} column => ?_⟩
          obtain ⟨hk, set, rfl, hget⟩ | ⟨hk, hkeeps⟩ := column.field?_eq hfield
          · obtain ⟨b, hb, rfl⟩ := decode_defaulted_eq_ok hdecode
            have hnone : get x = none := by simpa [Field.defaulted] using hset
            refine ⟨fun b' hb' => by simp [hnone] at hb', fun _ => ?_⟩
            simpa [List.find?_cons, hk, Reads, hb] using (hread column).1 b (hget b x)
          · rw [← hkeeps v x x' hdecode]
            simpa [List.find?_cons, hk] using hread column

theorem ofItems_eq_ok {i : Nat} {x : σ} {vs : List Item} {a : α} (h : ofItems s i x (s.fields.drop i) vs = .ok a) :
    ∃ y, s.finish y = .ok a ∧ ∀ {β : Type} {index names} {get : σ → Option β} {decode},
      Column s index names get decode →
        (index < i → get y = get x) ∧ (get x = none → i ≤ index → Reads decode vs[index - i]? (get y)) := by
  generalize hfs : s.fields.drop i = fs at h
  induction fs generalizing i x vs with
  | nil =>
    refine ⟨x, conclude_eq_ok h, fun column => ⟨fun _ => rfl, fun _ hindex => ?_⟩⟩
    obtain ⟨set, hset, -⟩ := column.own
    obtain ⟨hlt, -⟩ := List.getElem?_eq_some_iff.mp hset
    have hlength := List.drop_eq_nil_iff.mp hfs
    omega
  | cons f fs ih =>
    have hfield : s.fields[i]? = some f := by
      rw [← Nat.add_zero i, ← List.getElem?_drop, hfs]
      rfl
    have hrest : s.fields.drop (i + 1) = fs := by
      rw [← List.drop_drop, hfs]
      rfl
    cases vs with
    | nil =>
      simp only [ofItems] at h
      split at h
      · obtain ⟨y, hy, hread⟩ := ih hrest h
        refine ⟨y, hy, fun {β index names get decode} column => ?_⟩
        obtain ⟨hbefore, hafter⟩ := hread column
        refine ⟨fun hlt => hbefore (by omega), fun hnone hle => ?_⟩
        obtain heq | hlt := Nat.eq_or_lt_of_le hle
        · rw [hbefore (by omega), hnone]
          rfl
        · exact hafter hnone hlt
      · cases h
    | cons v vs =>
      simp only [ofItems] at h
      cases hdecode : f.decode v x with
      | error e =>
        simp only [hdecode] at h
        cases h
      | ok x' =>
        simp only [hdecode] at h
        obtain ⟨y, hy, hread⟩ := ih hrest h
        refine ⟨y, hy, fun {β index names get decode} column => ?_⟩
        obtain ⟨hbefore, hafter⟩ := hread column
        have hother : i ≠ index → get x' = get x := fun hne => (column.other i f hfield hne).2 v x x' hdecode
        refine ⟨fun hlt => ?_, fun hnone hle => ?_⟩
        · rw [hbefore (by omega), hother (by omega)]
        · obtain heq | hlt := Nat.eq_or_lt_of_le hle
          · obtain ⟨set, hset, hget⟩ := column.own
            rw [← heq, hfield] at hset
            obtain rfl := Option.some.inj hset
            obtain ⟨b, hb, rfl⟩ := decode_defaulted_eq_ok hdecode
            rw [hbefore (by omega), ← heq, Nat.sub_self]
            exact ⟨b, hb, hget b x⟩
          · have hplace : index - i = (index - (i + 1)) + 1 := by omega
            rw [hplace, List.getElem?_cons_succ]
            exact hafter ((hother (by omega)).trans hnone) hlt

/-- What is decoded is made of what the columns read. -/
theorem record_eq_ok {v : Item} {a : α} (h : record s v = .ok a) :
    ∃ y, s.finish y = .ok a ∧ ∀ {β : Type} {index names} {get : σ → Option β} {decode},
      Column s index names get decode → Reads decode (v.field? names index) (get y) := by
  have hlist : ∀ items : List Item, ofItems s 0 s.empty s.fields items = .ok a →
      ∃ y, s.finish y = .ok a ∧ ∀ {β : Type} {index names} {get : σ → Option β} {decode},
        Column s index names get decode → Reads decode items[index]? (get y) := by
    intro items hitems
    obtain ⟨y, hy, hread⟩ := ofItems_eq_ok (i := 0) hitems
    exact ⟨y, hy, fun column => (hread column).2 column.fresh (Nat.zero_le _)⟩
  have hok : ∀ {r : Except Fault α} {span : Option Span}, r.mapError (Fault.settle span) = .ok a → r = .ok a := by
    intro r span hr
    cases r with
    | error e => cases hr
    | ok b => exact congrArg _ (Except.ok.inj hr)
  cases v with
  | table t =>
    obtain ⟨y, hy, hread⟩ := ofEntries_eq_ok (hok h)
    exact ⟨y, hy, fun column => (hread column).2 column.fresh⟩
  | array span items => exact hlist items (hok h)
  | tables elements => exact hlist (elements.map .table) (hok h)
  | scalar span value =>
    cases value with
    | date => exact ⟨s.empty, conclude_eq_ok (hok h), fun column => column.fresh⟩
    | string t => cases h
    | integer i => cases h
    | floating x => cases h
    | boolean b => cases h

end Decoder

end Toml

open Toml Decoder

variable {v : Item}

namespace AnalysisSettings

def ofItem (v : Item) : AnalysisSettings where
  enabled := (v.field? ["enabled", "enable"] 0).bind Item.boolean?
  settingsPath := (v.field? ["settingsPath"] 1).bind Item.text?

theorem tomlColumns :
    Column (shape Toml.format) 0 ["enabled", "enable"] Gathered.enabled (optional boolean) ∧
      Column (shape Toml.format) 1 ["settingsPath"] Gathered.settingsPath (optional string) := by
  refine ⟨Column.between [] [_] rfl (fun _ _ => rfl) ?_ rfl, Column.between [_] [] rfl (fun _ _ => rfl) ?_ rfl⟩ <;>
    exact List.forall_mem_singleton.mpr (aside_defaulted (by decide) fun _ _ => rfl)

theorem eq_ofItem {s : AnalysisSettings} (h : decode Toml.format v = .ok s) : s = ofItem v := by
  obtain ⟨y, hy, hread⟩ := record_eq_ok h
  obtain ⟨henabled, hpath⟩ := tomlColumns
  rw [ofItem, ← (hread henabled).getD_optional fun _ _ => boolean?_of_boolean,
    ← (hread hpath).getD_optional fun _ _ => text?_of_string]
  exact (Except.ok.inj hy).symm

end AnalysisSettings

namespace ServerSettings

def ofItem (v : Item) : ServerSettings where
  analysis := ((v.field? ["analysis", "scriptAnalysis"] 0).map AnalysisSettings.ofItem).getD {}

theorem eq_ofItem {s : ServerSettings} (h : decode Toml.format v = .ok s) : s = ofItem v := by
  obtain ⟨y, hy, hread⟩ := record_eq_ok h
  have hcolumn : Column (shape Toml.format) 0 ["analysis", "scriptAnalysis"] Gathered.analysis
      (AnalysisSettings.decode Toml.format) := Column.between [] [] rfl (fun _ _ => rfl) (by simp) rfl
  rw [ofItem, ← (hread hcolumn).eq_map fun _ _ => AnalysisSettings.eq_ofItem]
  exact (Except.ok.inj hy).symm

end ServerSettings

namespace ParserConfig

def ofItem (v : Item) : ParserConfig where
  maxFileSizeMb := (((v.field? ["max_file_size_mb"] 0).bind Item.natural?).map Nat.toUInt32).getD 5

theorem eq_ofItem {c : ParserConfig} (h : decode Toml.format v = .ok c) : c = ofItem v := by
  obtain ⟨y, hy, hread⟩ := record_eq_ok h
  have hcolumn : Column (shape Toml.format) 0 ["max_file_size_mb"] Gathered.maxFileSizeMb word :=
    Column.between [] [] rfl (fun _ _ => rfl) (by simp) rfl
  rw [ofItem, ← (hread hcolumn).eq_bind fun _ _ => natural?_of_word, ← Except.ok.inj hy]
  cases y.maxFileSizeMb <;> rfl

end ParserConfig

namespace OutputConfig

def ofItem (v : Item) : OutputConfig where
  format := ((v.field? ["format"] 0).bind Item.text?).getD "json"

theorem eq_ofItem {c : OutputConfig} (h : decode Toml.format v = .ok c) : c = ofItem v := by
  obtain ⟨y, hy, hread⟩ := record_eq_ok h
  have hcolumn : Column (shape Toml.format) 0 ["format"] Gathered.format string :=
    Column.between [] [] rfl (fun _ _ => rfl) (by simp) rfl
  rw [ofItem, ← (hread hcolumn).eq_bind fun _ _ => text?_of_string, ← Except.ok.inj hy]
  cases y.format <;> rfl

end OutputConfig

end ShellDecl
