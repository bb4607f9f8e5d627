import ShellDecl.Proofs.Json.Tree

/-!
# Fields that are given twice

An object that gives one field twice is refused wherever it is read as a record, whatever the two values are and
whether the keys are the same or two names of the field.
-/

set_option autoImplicit false

namespace ShellDecl

open Json

def Extent.Doubled (w : Json) : Prop :=
  ∃ name ∈ ["start_line", "start_column", "end_line", "end_column", "text"], Twice [name] w

def Symbol.Doubled (w : Json) : Prop :=
  (∃ name ∈ ["kind", "extent", "display_name"], Twice [name] w) ∨ ∃ v, Gives ["extent"] 1 w v ∧ Extent.Doubled v

def AnalysisSettings.Doubled (w : Json) : Prop :=
  Twice ["enabled", "enable"] w ∨ Twice ["settingsPath"] w

def ServerSettings.Doubled (w : Json) : Prop :=
  Twice ["analysis", "scriptAnalysis"] w ∨ ∃ v, Gives ["analysis", "scriptAnalysis"] 0 w v ∧ AnalysisSettings.Doubled v

def SettingsNotice.Doubled (w : Json) : Prop :=
  Twice ["Powershell", "powershell"] w ∨ ∃ v, Gives ["Powershell", "powershell"] 0 w v ∧ ServerSettings.Doubled v

namespace Script

/-- The values that tell a tag: its name, or its number where the node was kept. -/
def Tag.Denoted (tag : Tag) (w : Json) : Prop :=
  w = .str tag.name ∨
    ∃ digits n, w = .number digits ∧ Numeral.value digits.toList = .ok (.natural n) ∧ Tag.all[n]? = some tag

/-- A node with the tag gives a value to one of the tag's fields, under its name or by its place behind the tag. -/
def NodeGives (tag : Tag) (name : String) (index : Nat) (n v : Json) : Prop :=
  (∃ ms t, n = .obj ms ∧ ("type", t) ∈ ms ∧ tag.Denoted t ∧ (name, v) ∈ ms) ∨
    ∃ t vs, n = .arr (t :: vs) ∧ tag.Denoted t ∧ vs[index]? = some v

/-- A node with the tag that gives one of the tag's fields twice. -/
def NodeTwice (tag : Tag) (name : String) (n : Json) : Prop :=
  Twice [name] n ∧ ∃ t, n.Has "type" t ∧ tag.Denoted t

def NodeDoubled (n : Json) : Prop :=
  Twice ["type"] n ∨ NodeTwice .function "name" n ∨ NodeTwice .function "body" n ∨ NodeTwice .other "label" n ∨
    NodeTwice .other "children" n

inductive Doubled : Json → Prop where
  | extentTwice (w : Json) (h : Twice ["extent"] w) : Doubled w
  | nodeTwice (w : Json) (h : Twice ["node"] w) : Doubled w
  | extent (w v : Json) (h : Gives ["extent"] 0 w v) (hv : Extent.Doubled v) : Doubled w
  | node (w v : Json) (h : Gives ["node"] 1 w v) (hv : NodeDoubled v) : Doubled w
  | child (w n : Json) (vs : List Json) (v : Json) (h : Gives ["node"] 1 w n)
      (hn : NodeGives .function "body" 1 n (.arr vs) ∨ NodeGives .other "children" 1 n (.arr vs)) (hmem : v ∈ vs)
      (hv : Doubled v) : Doubled w

end Script

/-! ## Extents, symbols and settings -/

theorem Extent.refuses_doubled {w : Json} (h : Doubled w) : Refuses decode w := by
  obtain ⟨name, hname, h⟩ := h
  obtain ⟨c₁, c₂, c₃, c₄, c₅⟩ := columns
  simp only [List.mem_cons, List.not_mem_nil, or_false] at hname
  obtain rfl | rfl | rfl | rfl | rfl := hname
  · exact Gather.record_refuses_twice lawful c₁ h
  · exact Gather.record_refuses_twice lawful c₂ h
  · exact Gather.record_refuses_twice lawful c₃ h
  · exact Gather.record_refuses_twice lawful c₄ h
  · exact Gather.record_refuses_twice lawful c₅ h

theorem Symbol.refuses_doubled {w : Json} (h : Doubled w) : Refuses decode w := by
  obtain ⟨c₁, c₂, c₃⟩ := columns
  obtain ⟨name, hname, h⟩ | ⟨v, hv, hdoubled⟩ := h
  · simp only [List.mem_cons, List.not_mem_nil, or_false] at hname
    obtain rfl | rfl | rfl := hname
    · exact Gather.record_refuses_twice lawful c₁ h
    · exact Gather.record_refuses_twice lawful c₂ h
    · exact Gather.record_refuses_twice lawful c₃ h
  · exact Gather.record_refuses_gives lawful c₂ rfl rfl hv (Extent.refuses_doubled hdoubled)

theorem AnalysisSettings.refuses_doubled {w : Json} (h : Doubled w) : Refuses (decode format) w := by
  obtain ⟨c₁, c₂⟩ := columns
  obtain h | h := h
  · exact Gather.record_refuses_twice lawful c₁ h
  · exact Gather.record_refuses_twice lawful c₂ h

theorem ServerSettings.refuses_doubled {w : Json} (h : Doubled w) : Refuses (decode format) w := by
  obtain h | ⟨v, hv, hdoubled⟩ := h
  · exact Gather.record_refuses_twice lawful column h
  · exact Gather.record_refuses_gives lawful column rfl rfl hv (AnalysisSettings.refuses_doubled hdoubled)

theorem Json.refuses_optional {β : Type} {decode : Decoder β} {w : Json} (h : Refuses decode w) (hw : w ≠ .null) :
    Refuses (Decoder.optional decode) w := by
  intro mode d hd b hb
  unfold Decoder.optional at hb
  split at hb
  · rename_i start stop heq
    simp only at heq
    subst heq
    exact hw (holds_null hd)
  · obtain ⟨c, hc, -⟩ := Gather.map_eq_ok.mp hb
    exact h mode d hd c hc

theorem ServerSettings.ne_null_of_doubled {w : Json} (h : Doubled w) : w ≠ .null := by
  rintro rfl
  obtain ⟨ms, hms, -⟩ | ⟨v, ⟨ms, k, hms, -⟩ | ⟨vs, hvs, -⟩, -⟩ := h
  · cases hms
  · cases hms
  · cases hvs

theorem SettingsNotice.refuses_doubled {w : Json} (h : Doubled w) : Refuses (decode format) w := by
  obtain h | ⟨v, hv, hdoubled⟩ := h
  · exact Gather.record_refuses_twice lawful column h
  · exact Gather.record_refuses_gives lawful column rfl rfl hv
      (refuses_optional (ServerSettings.refuses_doubled hdoubled) (ServerSettings.ne_null_of_doubled hdoubled))

/-! ## Nodes and trees -/

namespace Script

variable {mode : Mode} {children : Decoder (List Script)}

theorem Tag.eq_of_denoted {tag tag' : Tag} {w : Json} (h : tag.Denoted w) {d : Draft} (hd : d.Holds w)
    (htag : Tag.decode ⟨mode, d⟩ = .ok tag') : tag' = tag := by
  obtain rfl | ⟨digits, n, rfl, hn, hall⟩ := h
  · have htag' : Tag.decode ⟨mode, d⟩ = .ok tag := tag.decodes d hd
    exact Except.ok.inj (htag.symm.trans htag')
  · obtain ⟨start, m, stop, rfl, hm⟩ := exists_of_holds_number hd
    obtain rfl := Except.ok.inj (hm.symm.trans hn)
    cases mode with
    | direct depth => simp [Tag.decode] at htag
    | kept =>
      simp only [Tag.decode, hall] at htag
      exact (Except.ok.inj htag).symm

theorem given_of_tagOf_some {tag tag' : Tag} (members : Members) {ms : List (String × Json)} (hold : members.Hold ms)
    (h : tagOf mode (some tag) members = .ok tag') : given [Tag.key] ms = [] ∧ tag' = tag := by
  induction ms generalizing members with
  | nil =>
    obtain ⟨m, rfl⟩ := exists_of_hold_nil hold
    simpa [given, tagOf, Ending.inObject, Decoder.throwIf, eq_comm] using h
  | cons m ms ih =>
    obtain ⟨k, w⟩ := m
    obtain ⟨settled, key, d, rest, rfl, hkey, hd, hrest⟩ := exists_of_hold_cons hold
    by_cases hk : k = Tag.key
    · simp [tagOf, hkey, hk] at h
    · rw [given_cons_of_not_mem (by simpa using hk)]
      simp only [tagOf, hkey, if_neg hk, Gather.throwIf_eq_ok] at h
      exact ih rest hrest h.2

theorem given_of_tagOf {tag : Tag} (members : Members) {ms : List (String × Json)} (hold : members.Hold ms)
    (h : tagOf mode none members = .ok tag) :
    ∃ k w d, given [Tag.key] ms = [(k, w)] ∧ d.Holds w ∧ Tag.decode ⟨mode, d⟩ = .ok tag := by
  induction ms generalizing members with
  | nil =>
    obtain ⟨m, rfl⟩ := exists_of_hold_nil hold
    simp [tagOf, Ending.inObject, Decoder.throwIf] at h
  | cons m ms ih =>
    obtain ⟨k, w⟩ := m
    obtain ⟨settled, key, d, rest, rfl, hkey, hd, hrest⟩ := exists_of_hold_cons hold
    by_cases hk : k = Tag.key
    · rw [given_cons_of_mem (by simpa using hk)]
      simp only [tagOf, hkey, if_pos hk, Option.isSome_none, Bool.false_eq_true, if_false] at h
      obtain ⟨tag', htag, h⟩ := Gather.bind_eq_ok.mp h
      obtain ⟨hnone, rfl⟩ := given_of_tagOf_some rest hrest h
      exact ⟨k, w, d, by rw [hnone], hd, htag⟩
    · rw [given_cons_of_not_mem (by simpa using hk)]
      simp only [tagOf, hkey, if_neg hk, Gather.throwIf_eq_ok] at h
      exact ih rest hrest h.2

theorem content_of_obj {ms : List (String × Json)} {d : Draft} (hd : d.Holds (.obj ms)) {make : Extent → Script}
    (h : decodeShape children ⟨mode, d⟩ = .ok make) :
    (given [Tag.key] ms).length = 1 ∧
      ∃ tag, (∀ t tag', (Tag.key, t) ∈ ms → Tag.Denoted tag' t → tag = tag') ∧
        ∃ members : Members, members.Hold (ms.filter fun m => m.1 != Tag.key) ∧
          content children tag (.inl members) = .ok make := by
  obtain ⟨start, members, rfl, hold⟩ := exists_of_holds_obj hd
  obtain ⟨inner, -, h⟩ := Gather.bind_eq_ok.mp h
  obtain ⟨tag, htag, h⟩ := Gather.bind_eq_ok.mp h
  obtain ⟨k, w, d, hgiven, hd, hdecode⟩ := given_of_tagOf members hold htag
  refine ⟨by rw [hgiven]; rfl, tag, ?_, _, untagged_hold members hold, h⟩
  intro t tag' hmem ht
  have hmem' : (Tag.key, t) ∈ given [Tag.key] ms := mem_given.mpr ⟨hmem, by simp⟩
  rw [hgiven, List.mem_singleton] at hmem'
  obtain ⟨rfl, rfl⟩ := Prod.mk.inj hmem'
  exact Tag.eq_of_denoted ht hd hdecode

theorem content_of_arr {t : Json} {vs : List Json} {d : Draft} (hd : d.Holds (.arr (t :: vs))) {make : Extent → Script}
    (h : decodeShape children ⟨mode, d⟩ = .ok make) :
    ∃ tag, (∀ tag', Tag.Denoted tag' t → tag = tag') ∧
      ∃ items : Items, items.Hold vs ∧ content children tag (.inr items) = .ok make := by
  obtain ⟨start, items, rfl, hold⟩ := exists_of_holds_arr hd
  obtain ⟨d, rest, rfl, hd, hrest⟩ := exists_of_hold_items hold
  obtain ⟨inner, -, h⟩ := Gather.bind_eq_ok.mp h
  obtain ⟨tag, htag, h⟩ := Gather.bind_eq_ok.mp h
  exact ⟨tag, fun tag' ht => Tag.eq_of_denoted ht hd htag, rest, hrest, (Gather.throwIf_eq_ok.mp h).2⟩

theorem nodeTwice_refused {tag : Tag} {name : String} {n : Json} (h : NodeTwice tag name n) (hname : name ≠ Tag.key)
    (hcontent : ∀ (members : Members) (ms : List (String × Json)) (make : Extent → Script), members.Hold ms →
      content children tag (.inl members) = .ok make → (given [name] ms).length ≤ 1) :
    Refuses (decodeShape children) n := by
  obtain ⟨⟨ms, rfl, htwice⟩, t, ⟨ms', hms, hmem⟩, ht⟩ := h
  obtain rfl := Json.obj.inj hms
  intro mode d hd make hmake
  obtain ⟨-, tag', htag, members, hold, hmembers⟩ := content_of_obj hd hmake
  obtain rfl := htag t tag hmem ht
  have hle := hcontent members _ make hold hmembers
  rw [given_untagged (by simpa using hname.symm)] at hle
  exact absurd htwice (Nat.not_le_of_lt (Nat.lt_succ_of_le hle))

theorem nodeDoubled_refused {n : Json} (h : NodeDoubled n) : Refuses (decodeShape children) n := by
  obtain h | h | h | h | h := h
  · obtain ⟨ms, rfl, htwice⟩ := h
    intro mode d hd make hmake
    have hone := (content_of_obj hd hmake).1
    rw [Tag.key] at hone
    omega
  · exact nodeTwice_refused h (by decide) fun members ms make hold hmake =>
      function_columns.1.length_given_le function_lawful hold hmake
  · exact nodeTwice_refused h (by decide) fun members ms make hold hmake =>
      function_columns.2.length_given_le function_lawful hold hmake
  · exact nodeTwice_refused h (by decide) fun members ms make hold hmake =>
      other_columns.1.length_given_le other_lawful hold hmake
  · exact nodeTwice_refused h (by decide) fun members ms make hold hmake =>
      other_columns.2.length_given_le other_lawful hold hmake

/-- A node that is decoded has its children decoded from what it gives them. -/
theorem children_of_node {n v : Json} {tag : Tag} {name : String} {index : Nat} (hgives : NodeGives tag name index n v)
    (hname : name ≠ Tag.key)
    (hobj : ∀ (members : Members) (ms : List (String × Json)) (make : Extent → Script), members.Hold ms →
      content children tag (.inl members) = .ok make → (name, v) ∈ ms →
        ∃ d ts, d.Holds v ∧ children ⟨.kept, d⟩ = .ok ts)
    (harr : ∀ (items : Items) (vs : List Json) (make : Extent → Script), items.Hold vs →
      content children tag (.inr items) = .ok make → vs[index]? = some v →
        ∃ d ts, d.Holds v ∧ children ⟨.kept, d⟩ = .ok ts)
    {d : Draft} (hd : d.Holds n) {make : Extent → Script} (h : decodeShape children ⟨mode, d⟩ = .ok make) :
    ∃ d ts, d.Holds v ∧ children ⟨.kept, d⟩ = .ok ts := by
  obtain ⟨ms, t, rfl, hmem, ht, hv⟩ | ⟨t, vs, rfl, ht, hv⟩ := hgives
  · obtain ⟨-, tag', htag, members, hold, hmembers⟩ := content_of_obj hd h
    obtain rfl := htag t tag hmem ht
    exact hobj members _ make hold hmembers (List.mem_filter.mpr ⟨hv, by simpa using hname⟩)
  · obtain ⟨tag', htag, items, hold, hitems⟩ := content_of_arr hd h
    obtain rfl := htag tag ht
    exact harr items vs make hold hitems hv

theorem body_of_node {n v : Json} (h : NodeGives .function "body" 1 n v ∨ NodeGives .other "children" 1 n v)
    {d : Draft} (hd : d.Holds n) {make : Extent → Script} (hmake : decodeShape children ⟨mode, d⟩ = .ok make) :
    ∃ d ts, d.Holds v ∧ children ⟨.kept, d⟩ = .ok ts := by
  obtain h | h := h
  · refine children_of_node h (by decide) ?_ ?_ hd hmake
    · intro members ms make hold hmembers hv
      obtain ⟨y, hrun⟩ := Gather.gathers_of_ok members hold hmembers
      exact hrun.decoded function_lawful function_columns.2 (mem_given.mpr ⟨hv, List.mem_singleton_self _⟩)
    · intro items vs make hold hitems hv
      exact Gather.decoded_of_items function_columns.2 items hold (fun f hf => hf) hitems rfl rfl hv
  · refine children_of_node h (by decide) ?_ ?_ hd hmake
    · intro members ms make hold hmembers hv
      obtain ⟨y, hrun⟩ := Gather.gathers_of_ok members hold hmembers
      exact hrun.decoded other_lawful other_columns.2 (mem_given.mpr ⟨hv, List.mem_singleton_self _⟩)
    · intro items vs make hold hitems hv
      exact Gather.decoded_of_items other_columns.2 items hold (fun f hf => hf) hitems rfl rfl hv

theorem item_of_items {β : Type} {decode : Draft → Except Fault β} (items : Items) {vs : List Json}
    (hold : items.Hold vs) {bs : List β} (h : Decoder.items decode items = .ok bs) {v : Json} (hv : v ∈ vs) :
    ∃ d b, d.Holds v ∧ decode d = .ok b := by
  induction vs generalizing items bs with
  | nil => simp at hv
  | cons w vs ih =>
    obtain ⟨d, rest, rfl, hd, hrest⟩ := exists_of_hold_items hold
    rw [Decoder.items] at h
    cases hb : decode d with
    | error f => simp [hb] at h
    | ok b =>
      simp only [hb] at h
      obtain ⟨cs, hcs, -⟩ := Gather.map_eq_ok.mp h
      obtain rfl | hv := List.mem_cons.mp hv
      · exact ⟨d, b, hd, hb⟩
      · exact ih rest hrest hcs hv

theorem item_of_list {β : Type} {decode : Decoder β} {vs : List Json} {d : Draft} (hd : d.Holds (.arr vs)) {bs : List β}
    (h : Decoder.list decode ⟨mode, d⟩ = .ok bs) {v : Json} (hv : v ∈ vs) :
    ∃ inner d b, d.Holds v ∧ decode ⟨inner, d⟩ = .ok b := by
  obtain ⟨start, items, rfl, hold⟩ := exists_of_holds_arr hd
  obtain ⟨inner, -, h⟩ := Gather.bind_eq_ok.mp h
  exact ⟨inner, item_of_items items hold h hv⟩

/-- No tree is decoded where no level is left. -/
theorem refuses_levels {w : Json} (h : ∀ levels, Refuses (decodeLevels (levels + 1)) w) (levels : Nat) :
    Refuses (decodeLevels levels) w := by
  cases levels with
  | zero =>
    intro mode d hd t ht
    cases ht
  | succ levels => exact h levels

/-- A tree that gives a field twice at any of its levels is refused. -/
theorem refuses_doubled {w : Json} (h : Doubled w) (levels : Nat) : Refuses (decodeLevels levels) w := by
  induction h generalizing levels with
  | extentTwice w h => exact refuses_levels (fun _ => Gather.record_refuses_twice lawful columns.1 h) levels
  | nodeTwice w h => exact refuses_levels (fun _ => Gather.record_refuses_twice lawful columns.2 h) levels
  | extent w v h hv =>
    have hextent := Extent.refuses_doubled hv
    exact refuses_levels (fun _ => Gather.record_refuses_gives lawful columns.1 rfl rfl h hextent) levels
  | node w v h hv =>
    exact refuses_levels (fun _ => Gather.record_refuses_gives lawful columns.2 rfl rfl h (nodeDoubled_refused hv)) levels
  | child w n vs v h hn hmem hv ih =>
    refine refuses_levels (fun levels => Gather.record_refuses_gives lawful columns.2 rfl rfl h ?_) levels
    -- The node would be decoded with its children, and the refused child is one of them.
    intro mode d hd make hmake
    obtain ⟨d, ts, hd, hts⟩ := body_of_node hn hd hmake
    obtain ⟨inner, d, t, hd, ht⟩ := item_of_list hd hts hmem
    exact ih levels inner d hd t ht

end Script

end ShellDecl
