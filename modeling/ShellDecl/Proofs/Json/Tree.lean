import ShellDecl.Proofs.Json.Decode
import ShellDecl.Proofs.Shell.Lowering

/-!
# Decoding any spelling of a tree

The value of the key `node` is kept before the tag in it is known, and must stay within the limit of levels there.
What is below is decoded from kept values, so the tag may come last and the other members in any order.
-/

set_option autoImplicit false

namespace ShellDecl

open Json

namespace Json

variable {mode : Mode}

theorem depth_le_of_mem {ms : List (String × Json)} {k : String} {w : Json} (h : (k, w) ∈ ms) :
    w.depth ≤ depthMembers ms := by
  induction ms with
  | nil => simp at h
  | cons m ms ih =>
    rw [depthMembers]
    obtain rfl | h := List.mem_cons.mp h
    · exact Nat.le_max_left _ _
    · exact Nat.le_trans (ih h) (Nat.le_max_right _ _)

theorem depth_lt_obj {ms : List (String × Json)} {k : String} {w : Json} (h : (k, w) ∈ ms) :
    w.depth < (Json.obj ms).depth := by
  rw [depth]
  exact Nat.lt_succ_of_le (depth_le_of_mem h)

theorem depth_lt_arr {vs : List Json} {w : Json} (h : w ∈ vs) : w.depth < (Json.arr vs).depth := by
  rw [depth, Nat.lt_succ_iff]
  induction vs with
  | nil => simp at h
  | cons v vs ih =>
    rw [depthItems]
    obtain rfl | h := List.mem_cons.mp h
    · exact Nat.le_max_left _ _
    · exact Nat.le_trans (ih h) (Nat.le_max_right _ _)

def Has (w : Json) (k : String) (v : Json) : Prop :=
  ∃ ms, w = .obj ms ∧ (k, v) ∈ ms

end Json

namespace Script

variable {mode : Mode}

/-! ## The tag -/

theorem Tag.decodes (t : Tag) : Decodes Tag.decode mode (.str t.name) t := by
  intro d hd
  obtain ⟨start, stop, rfl⟩ := exists_of_holds_str hd
  cases t <;> rfl

theorem keep_of_hasRoom {d : Draft} {w : Json} (h : d.Holds w) (hroom : mode.HasRoom w.depth) :
    keep mode d = none := by
  cases mode with
  | direct depth => exact d.kept?_of_le h hroom
  | kept => rfl

theorem tagOf_found (tag : Tag) (members : Members) {ms : List (String × Json)} (hold : members.Hold ms)
    (hroom : mode.HasRoom (depthMembers ms)) (hms : given [Tag.key] ms = []) :
    tagOf mode (some tag) members = .ok tag := by
  induction ms generalizing members with
  | nil =>
    obtain ⟨m, rfl⟩ := exists_of_hold_nil hold
    rfl
  | cons m ms ih =>
    obtain ⟨k, w⟩ := m
    obtain ⟨settled, key, d, rest, rfl, hkey, hd, hrest⟩ := exists_of_hold_cons hold
    rw [depthMembers] at hroom
    have hk : k ∉ [Tag.key] := by
      intro hk
      simp [given_cons_of_mem hk] at hms
    rw [given_cons_of_not_mem hk] at hms
    rw [List.mem_singleton] at hk
    simp only [tagOf, hkey, if_neg hk, keep_of_hasRoom hd (hroom.mono (Nat.le_max_left _ _)), Decoder.throwIf]
    exact ih rest hrest (hroom.mono (Nat.le_max_right _ _)) hms

/-- The tag is found wherever it stands. -/
theorem tagOf_eq (tag : Tag) (members : Members) {ms : List (String × Json)} (hold : members.Hold ms)
    (hroom : mode.HasRoom (depthMembers ms)) {k : String} (hms : given [Tag.key] ms = [(k, .str tag.name)]) :
    tagOf mode none members = .ok tag := by
  induction ms generalizing members with
  | nil => simp [given] at hms
  | cons m ms ih =>
    obtain ⟨k', w⟩ := m
    obtain ⟨settled, key, d, rest, rfl, hkey, hd, hrest⟩ := exists_of_hold_cons hold
    rw [depthMembers] at hroom
    have hroom' : mode.HasRoom (depthMembers ms) := hroom.mono (Nat.le_max_right _ _)
    by_cases hk : k' ∈ [Tag.key]
    · rw [given_cons_of_mem hk] at hms
      obtain ⟨hm, hnone⟩ := List.cons.inj hms
      obtain ⟨rfl, rfl⟩ := Prod.mk.inj hm
      rw [List.mem_singleton] at hk
      simp only [tagOf, hkey, if_pos hk, tag.decodes d hd]
      exact tagOf_found tag rest hrest hroom' hnone
    · rw [given_cons_of_not_mem hk] at hms
      rw [List.mem_singleton] at hk
      simp only [tagOf, hkey, if_neg hk, keep_of_hasRoom hd (hroom.mono (Nat.le_max_left _ _)), Decoder.throwIf]
      exact ih rest hrest hroom' hms

theorem untagged_hold (members : Members) {ms : List (String × Json)} (hold : members.Hold ms) :
    (untagged members).Hold (ms.filter fun m => m.1 != Tag.key) := by
  induction ms generalizing members with
  | nil =>
    obtain ⟨m, rfl⟩ := exists_of_hold_nil hold
    trivial
  | cons m ms ih =>
    obtain ⟨k, w⟩ := m
    obtain ⟨settled, key, d, rest, rfl, hkey, hd, hrest⟩ := exists_of_hold_cons hold
    by_cases hk : k = Tag.key
    · simp only [untagged, hkey, if_pos hk]
      simpa [hk] using ih rest hrest
    · simp only [untagged, hkey, if_neg hk]
      rw [List.filter_cons_of_pos (by simpa using hk)]
      exact ⟨hkey, hd, ih rest hrest⟩

theorem given_untagged {names : List String} (h : Tag.key ∉ names) (ms : List (String × Json)) :
    given names (ms.filter fun m => m.1 != Tag.key) = given names ms := by
  rw [given, given, List.filter_filter]
  apply List.filter_congr
  intro m hm
  by_cases hmem : m.1 ∈ names
  · have hne : m.1 ≠ Tag.key := fun heq => h (heq ▸ hmem)
    simp [hne]
  · simp [hmem]

theorem spelled_untagged {e : Slot} {ms : List (String × Json)} (h : e.Spelled ms) (hnames : Tag.key ∉ e.names) :
    e.Spelled (ms.filter fun m => m.1 != Tag.key) := by
  rwa [Slot.Spelled, given_untagged hnames]

/-! ## Shapes of a node -/

variable {children : Decoder (List Script)}

theorem function_columns :
    Gather.Column (functionShape children) ["name"] GatheredFunction.name Decoder.string ∧
      Gather.Column (functionShape children) ["body"] GatheredFunction.body children := by
  refine ⟨?_, ?_⟩ <;>
    · constructor
      · simp [functionShape, Field.required]
      · simp [functionShape, Field.required]
        exact ⟨_, fun src x => rfl, by simp⟩
      · simp [functionShape, Field.required, Gather.map_eq_ok]

theorem function_lawful : Gather.Lawful (functionShape children) where
  column := by
    obtain ⟨c₁, c₂⟩ := @function_columns children
    simp only [functionShape, List.forall_mem_cons]
    exact ⟨⟨_, _, _, c₁⟩, ⟨_, _, _, c₂⟩, by simp⟩
  apart := by simp [functionShape, Field.required]
  fresh := by simp [functionShape, Field.required]

theorem other_columns :
    Gather.Column (otherShape children) ["label"] GatheredOther.label (Decoder.optional Decoder.string) ∧
      Gather.Column (otherShape children) ["children"] GatheredOther.children children := by
  refine ⟨?_, ?_⟩ <;>
    · constructor
      · simp [otherShape, Field.defaulted]
      · simp [otherShape, Field.defaulted]
        exact ⟨_, fun src x => rfl, by simp⟩
      · simp [otherShape, Field.defaulted, Gather.map_eq_ok]

theorem other_lawful : Gather.Lawful (otherShape children) where
  column := by
    obtain ⟨c₁, c₂⟩ := @other_columns children
    simp only [otherShape, List.forall_mem_cons]
    exact ⟨⟨_, _, _, c₁⟩, ⟨_, _, _, c₂⟩, by simp⟩
  apart := by simp [otherShape, Field.defaulted]
  fresh := by simp [otherShape, Field.defaulted]

theorem decodeShape_obj {ms : List (String × Json)} (hroom : mode.HasRoom (Json.obj ms).depth) (tag : Tag) {k : String}
    (htag : given [Tag.key] ms = [(k, .str tag.name)]) {make : Extent → Script}
    (h : ∀ members : Members, members.Hold (ms.filter fun m => m.1 != Tag.key) →
      content children tag (.inl members) = .ok make) :
    Decodes (decodeShape children) mode (.obj ms) make := by
  intro d hd
  obtain ⟨start, members, rfl, hold⟩ := exists_of_holds_obj hd
  rw [depth] at hroom
  have henter := Mode.enter_of_hasRoom (hroom.mono (Nat.le_add_left 1 _)) start
  simp only [decodeShape, henter, bind, Except.bind, tagOf_eq tag members hold hroom.inner htag]
  exact h _ (untagged_hold members hold)

theorem function_decodes {name : String} {body : List Script} {w : Json}
    (hw : Object [
      ⟨["type"], (· = .str "function_definition"), False⟩,
      ⟨["name"], (· = .str name), False⟩,
      ⟨["body"], Listed (spelledAll body), False⟩] w)
    (hroom : mode.HasRoom w.depth)
    (hbody : ∀ k v, w.Has k v → Listed (spelledAll body) v → Decodes children .kept v body) :
    Decodes (decodeShape children) mode w fun e => .function e name body := by
  obtain ⟨ms, rfl, hslots⟩ := hw
  simp only [List.forall_mem_cons] at hslots
  obtain ⟨h₁, h₂, h₃, -⟩ := hslots
  obtain ⟨k, v, htag, rfl⟩ | ⟨ho, -⟩ := h₁
  · refine decodeShape_obj hroom .function htag fun members hold => ?_
    obtain ⟨c₁, c₂⟩ := @function_columns children
    have s₁ := c₁.stored function_lawful (spelled_untagged h₂ (by simp [Tag.key])) .kept fun _ v _ hv => hv ▸ decodes_string name
    have s₂ := c₂.stored function_lawful (spelled_untagged h₃ (by simp [Tag.key])) .kept fun k v hm hv =>
      hbody k v ⟨ms, rfl, List.mem_of_mem_filter (mem_given.mp hm).1⟩ hv
    refine Gather.ofMembers_eq_ok function_lawful members hold
      (List.forall_mem_cons.mpr ⟨s₁.supplied, List.forall_mem_cons.mpr ⟨s₂.supplied, List.forall_mem_nil _⟩⟩) rfl ?_
    intro y hrun
    simp only [functionShape, s₁.get_eq id hrun, s₂.get_eq id hrun]
    rfl
  · exact ho.elim

theorem other_decodes {label : Option String} {ts : List Script} {w : Json}
    (hw : Object [
      ⟨["type"], (· = .str "other"), False⟩,
      ⟨["label"], (· = Json.optional .str label), label = none⟩,
      ⟨["children"], Listed (spelledAll ts), ts = []⟩] w)
    (hroom : mode.HasRoom w.depth)
    (hts : ∀ k v, w.Has k v → Listed (spelledAll ts) v → Decodes children .kept v ts) :
    Decodes (decodeShape children) mode w fun e => .other e label ts := by
  obtain ⟨ms, rfl, hslots⟩ := hw
  simp only [List.forall_mem_cons] at hslots
  obtain ⟨h₁, h₂, h₃, -⟩ := hslots
  obtain ⟨k, v, htag, rfl⟩ | ⟨ho, -⟩ := h₁
  · refine decodeShape_obj hroom .other htag fun members hold => ?_
    obtain ⟨c₁, c₂⟩ := @other_columns children
    have s₁ := c₁.stored other_lawful (spelled_untagged h₂ (by simp [Tag.key])) .kept fun _ v _ hv =>
      hv ▸ decodes_optional decodes_string (by simp) label
    have s₂ := c₂.stored other_lawful (spelled_untagged h₃ (by simp [Tag.key])) .kept fun k v hm hv =>
      hts k v ⟨ms, rfl, List.mem_of_mem_filter (mem_given.mp hm).1⟩ hv
    refine Gather.ofMembers_eq_ok other_lawful members hold
      (List.forall_mem_cons.mpr ⟨s₁.supplied, List.forall_mem_cons.mpr ⟨s₂.supplied, List.forall_mem_nil _⟩⟩) rfl ?_
    intro y hrun
    simp only [otherShape, s₁.getD_eq id hrun, s₂.getD_eq id hrun]
  · exact ho.elim

theorem variable_decodes {w : Json} (hw : Object [⟨["type"], (· = .str "variable_expression"), False⟩] w)
    (hroom : mode.HasRoom w.depth) : Decodes (decodeShape children) mode w .variableName := by
  obtain ⟨ms, rfl, hslots⟩ := hw
  obtain ⟨k, v, htag, rfl⟩ | ⟨ho, -⟩ := hslots _ (List.mem_singleton_self _)
  · exact decodeShape_obj hroom .variableName htag fun members hold => rfl
  · exact ho.elim

/-! ## Trees -/

theorem columns :
    Gather.Column (shape children) ["extent"] Gathered.extent Extent.decode ∧
      Gather.Column (shape children) ["node"] Gathered.node (decodeShape children) := by
  refine ⟨?_, ?_⟩ <;>
    · constructor
      · simp [shape, Field.required]
      · simp [shape, Field.required]
        exact ⟨_, fun src x => rfl, by simp⟩
      · simp [shape, Field.required, Gather.map_eq_ok]

theorem lawful : Gather.Lawful (shape children) where
  column := by
    obtain ⟨c₁, c₂⟩ := @columns children
    simp only [shape, List.forall_mem_cons]
    exact ⟨⟨_, _, _, c₁⟩, ⟨_, _, _, c₂⟩, by simp⟩
  apart := by simp [shape, Field.required]
  fresh := by simp [shape, Field.required]

/-- All extents of a tree have a place in 32 bits. -/
def Fits (t : Script) : Prop :=
  ∀ u ∈ t.preorder, u.extent.Fits

theorem Fits.extent {t : Script} (h : t.Fits) : t.extent.Fits :=
  h t (mem_preorder.mpr (Or.inl rfl))

theorem Fits.child {t c : Script} (h : t.Fits) (hc : c ∈ t.children) : c.Fits := by
  intro u hu
  exact h u (mem_preorder.mpr (Or.inr ⟨c, hc, hu⟩))

theorem record_decodes {e : Extent} (he : e.Fits) {node : Json → Prop} {make : Extent → Script} {w : Json}
    (hw : Object [⟨["extent"], e.Spelled, False⟩, ⟨["node"], node, False⟩] w) (hroom : mode.HasRoom 2)
    (hnode : ∀ v, w.Has "node" v → node v → Decodes (decodeShape children) mode.inner v make) :
    Decodes (Gather.record (shape children)) mode w (make e) := by
  refine Gather.record_decodes lawful (hroom.mono (by decide)) hw rfl ?_
  rintro ms rfl hslots
  simp only [List.forall_mem_cons] at hslots ⊢
  obtain ⟨h₁, h₂, -⟩ := hslots
  obtain ⟨c₁, c₂⟩ := @columns children
  have s₁ := c₁.stored lawful h₁ mode.inner fun _ v _ hv => Extent.decodes he hv hroom.inner
  have s₂ := c₂.stored lawful h₂ mode.inner fun k v hm hv => by
    obtain ⟨hmem, hk⟩ := mem_given.mp hm
    obtain rfl := List.mem_singleton.mp hk
    exact hnode v ⟨ms, rfl, hmem⟩ hv
  refine ⟨⟨s₁.supplied, s₂.supplied, by simp⟩, ?_⟩
  intro y hrun
  simp only [shape, s₁.get_eq id hrun, s₂.get_eq id hrun]
  rfl

theorem list_decodes {levels : Nat}
    (h : ∀ (t : Script) (w : Json), t.Spelled w → t.Fits → w.depth ≤ levels → Decodes (decodeLevels levels) .kept w t)
    {ts : List Script} (hts : ∀ t ∈ ts, t.Fits) {v : Json} (hv : Listed (spelledAll ts) v)
    (hdepth : v.depth ≤ levels + 1) : Decodes (Decoder.list (decodeLevels levels)) .kept v ts := by
  obtain ⟨vs, rfl, hvs⟩ := hv
  have hroom : Mode.kept.HasRoom 1 := trivial
  refine decodes_list hroom ?_
  have hitems : ∀ u ∈ vs, u.depth ≤ levels := fun u hu => Nat.le_of_lt_succ (Nat.lt_of_lt_of_le (depth_lt_arr hu) hdepth)
  -- The induction is over the items, each of which keeps the bound; the list as a whole does not.
  clear hdepth
  induction ts generalizing vs with
  | nil =>
    cases hvs
    exact .nil
  | cons t ts ih =>
    cases hvs with
    | cons hu more =>
      exact .cons (h t _ hu (hts t (by simp)) (hitems _ (by simp)))
        (ih (fun t ht => hts t (by simp [ht])) _ more fun u hu => hitems u (by simp [hu]))

/-- One level: a tree is decoded once its children are. -/
theorem step_decodes {levels : Nat}
    (h : ∀ (t : Script) (w : Json), t.Spelled w → t.Fits → w.depth ≤ levels → Decodes (decodeLevels levels) .kept w t)
    {t : Script} {w : Json} (hw : t.Spelled w) (ht : t.Fits) (hroom : mode.HasRoom 2)
    (hnode : ∀ v, w.Has "node" v → mode.inner.HasRoom v.depth ∧ v.depth ≤ levels + 2) :
    Decodes (decodeLevels (levels + 1)) mode w t := by
  have hchildren : ∀ (ts : List Script), (∀ t ∈ ts, t.Fits) → ∀ v, w.Has "node" v → ∀ k u, v.Has k u →
      Listed (spelledAll ts) u → Decodes (Decoder.list (decodeLevels levels)) .kept u ts := by
    rintro ts hts _ hv k u ⟨ns, rfl, hu⟩ hlisted
    have hlt := depth_lt_obj hu
    have hle := (hnode _ hv).2
    exact list_decodes h hts hlisted (by omega)
  cases t with
  | function e name body =>
    rw [Spelled] at hw
    exact record_decodes ht.extent hw hroom fun v hv hs =>
      function_decodes hs (hnode v hv).1 (hchildren body (fun c hc => ht.child hc) v hv)
  | variableName e =>
    rw [Spelled] at hw
    exact record_decodes ht.extent hw hroom fun v hv hs => variable_decodes hs (hnode v hv).1
  | other e label ts =>
    rw [Spelled] at hw
    exact record_decodes ht.extent hw hroom fun v hv hs =>
      other_decodes hs (hnode v hv).1 (hchildren ts (fun c hc => ht.child hc) v hv)

theorem kept_decodes (levels : Nat) : ∀ (t : Script) (w : Json), t.Spelled w → t.Fits → w.depth ≤ levels →
    Decodes (decodeLevels levels) .kept w t := by
  induction levels with
  | zero =>
    -- A tree is spelled as an object, and an object takes a level.
    intro t w hw ht hdepth
    obtain ⟨ms, rfl⟩ : ∃ ms, w = .obj ms := by
      cases t <;> rw [Spelled] at hw <;> exact ⟨hw.choose, hw.choose_spec.1⟩
    simp [depth] at hdepth
  | succ levels ih =>
    intro t w hw ht hdepth
    refine step_decodes ih hw ht trivial fun v hv => ⟨trivial, ?_⟩
    obtain ⟨ms, rfl, hmem⟩ := hv
    have hlt := depth_lt_obj hmem
    omega

/-- A tree is decoded from any spelling whose node stays within the limit. -/
theorem decodes {t : Script} (ht : t.Fits) {w : Json} (hw : t.Spelled w)
    (hdepth : ∀ v, w.Has "node" v → v.depth < maxDepth) : Decodes decode (.direct maxDepth) w t := by
  have hroom : (Mode.direct maxDepth).HasRoom 2 := by
    show 2 ≤ maxDepth
    decide
  refine step_decodes (kept_decodes 126) hw ht hroom fun v hv => ?_
  have hlt : v.depth < 127 := hdepth v hv
  exact ⟨Nat.le_of_lt_succ hlt, by omega⟩

/-! ## Too deep a tree -/

theorem tagOf_tooDeep (tag : Tag) (members : Members) {ms : List (String × Json)} (hold : members.Hold ms) {k : Nat}
    (hk : k < depthMembers ms) (hms : given [Tag.key] ms = []) :
    ∃ m, tagOf (.direct k) (some tag) members = .error (.placed .tooDeep m) := by
  induction ms generalizing members with
  | nil => simp [depthMembers] at hk
  | cons m ms ih =>
    obtain ⟨name, w⟩ := m
    obtain ⟨settled, key, d, rest, rfl, hkey, hd, hrest⟩ := exists_of_hold_cons hold
    rw [depthMembers] at hk
    have hname : name ∉ [Tag.key] := by
      intro hname
      simp [given_cons_of_mem hname] at hms
    rw [given_cons_of_not_mem hname] at hms
    rw [List.mem_singleton] at hname
    simp only [tagOf, hkey, if_neg hname, keep]
    by_cases hw : w.depth ≤ k
    · rw [d.kept?_of_le hd hw]
      exact ih rest hrest (by omega) hms
    · obtain ⟨m, hm⟩ := d.kept?_of_lt hd (Nat.lt_of_not_le hw)
      exact ⟨m, by rw [hm]; rfl⟩

theorem depth_of_tag {k : Nat} {d : Draft} {w : Json} (hd : d.Holds w) {tag : Tag}
    (h : Tag.decode ⟨.direct k, d⟩ = .ok tag) : w.depth = 0 := by
  cases d with
  | scalar start value stop => exact depth_of_scalar hd
  | _ => simp [Tag.decode] at h

theorem depth_of_tagOf {k : Nat} {tag? : Option Tag} {tag : Tag} (members : Members) {ms : List (String × Json)}
    (hold : members.Hold ms) (h : tagOf (.direct k) tag? members = .ok tag) : depthMembers ms ≤ k := by
  induction ms generalizing members tag? with
  | nil => exact Nat.zero_le k
  | cons m ms ih =>
    obtain ⟨name, w⟩ := m
    obtain ⟨settled, key, d, rest, rfl, hkey, hd, hrest⟩ := exists_of_hold_cons hold
    rw [depthMembers, Nat.max_le]
    by_cases hname : name = Tag.key
    · simp only [tagOf, hkey, if_pos hname] at h
      split at h
      · cases h
      · obtain ⟨tag', htag, h⟩ := Gather.bind_eq_ok.mp h
        exact ⟨by rw [depth_of_tag hd htag]; exact Nat.zero_le k, ih rest hrest h⟩
    · simp only [tagOf, hkey, if_neg hname, keep] at h
      by_cases hw : w.depth ≤ k
      · rw [d.kept?_of_le hd hw] at h
        exact ⟨hw, ih rest hrest h⟩
      · obtain ⟨m, hm⟩ := d.kept?_of_lt hd (Nat.lt_of_not_le hw)
        rw [hm] at h
        cases h

theorem depth_of_decodeShape {k : Nat} {ms : List (String × Json)} {d : Draft} (hd : d.Holds (.obj ms))
    {make : Extent → Script} (h : decodeShape children ⟨.direct k, d⟩ = .ok make) : (Json.obj ms).depth ≤ k := by
  obtain ⟨start, members, rfl, hold⟩ := exists_of_holds_obj hd
  cases k with
  | zero => cases h
  | succ k =>
    obtain ⟨inner, henter, h⟩ := Gather.bind_eq_ok.mp h
    obtain rfl : Mode.direct k = inner := Except.ok.inj henter
    obtain ⟨tag, htag, -⟩ := Gather.bind_eq_ok.mp h
    rw [depth]
    exact Nat.succ_le_succ (depth_of_tagOf members hold htag)

/-- A node beyond the limit is refused, and so is the tree. -/
theorem not_decode_of_deep {w : Json} {ms : List (String × Json)} (hnode : w.Has "node" (.obj ms))
    (hdepth : maxDepth ≤ (Json.obj ms).depth) {d : Draft} (hd : d.Holds w) (t : Script) :
    decode ⟨.direct maxDepth, d⟩ ≠ .ok t := by
  intro h
  obtain ⟨ws, rfl, hmem⟩ := hnode
  obtain ⟨start, inner, y, henter, hrun⟩ := Gather.gathers_of_record hd h
  obtain rfl : Mode.direct 126 = inner := Except.ok.inj henter
  obtain ⟨d', make, hd', hmake⟩ := hrun.decoded lawful columns.2 (mem_given.mpr ⟨hmem, List.mem_singleton_self _⟩)
  have hle := depth_of_decodeShape hd' hmake
  have hmax : maxDepth = 127 := rfl
  omega

theorem toJson_eq (t : Script) : ∃ (tag : Tag) (ms : List (String × Json)), given [Tag.key] ms = [] ∧
    t.toJson = .obj [("extent", t.extent.toJson), ("node", .obj ((Tag.key, .str tag.name) :: ms))] := by
  cases t with
  | function e name body =>
    refine ⟨.function, _, ?_, by rw [toJson]; rfl⟩
    simp [given, Tag.key]
  | variableName e => exact ⟨.variableName, [], rfl, by rw [toJson]; rfl⟩
  | other e label children =>
    cases label with
    | none =>
      refine ⟨.other, _, ?_, by rw [toJson]; rfl⟩
      simp [given, Tag.key]
    | some label =>
      refine ⟨.other, _, ?_, by rw [toJson]; rfl⟩
      simp [given, Tag.key]

theorem decodeShape_tooDeep (tag : Tag) {ms : List (String × Json)} (hms : given [Tag.key] ms = []) {k : Nat}
    (hk : k < depthMembers ms) {d : Draft} (hd : d.Holds (.obj ((Tag.key, .str tag.name) :: ms))) :
    ∃ m, decodeShape children ⟨.direct (k + 1), d⟩ = .error (.placed .tooDeep m) := by
  obtain ⟨start, members, rfl, hold⟩ := exists_of_holds_obj hd
  obtain ⟨settled, key, d, rest, rfl, hkey, hd, hrest⟩ := exists_of_hold_cons hold
  obtain ⟨m, hm⟩ := tagOf_tooDeep tag rest hrest hk hms
  refine ⟨m, ?_⟩
  have htag : Tag.decode ⟨.direct k, d⟩ = .ok tag := tag.decodes d hd
  simp only [decodeShape, Mode.enter, tagOf, hkey, if_true, Option.isSome_none, Bool.false_eq_true, if_false, bind,
    Except.bind, htag, hm]

theorem depth_extent (e : Extent) : e.toJson.depth = 1 := by
  simp [Extent.toJson, depth, depthMembers, nat]

/-- The written form of a tree that nests too deep is refused, for just that reason. -/
theorem decode_tooDeep {t : Script} (ht : t.Fits) (hdepth : maxDepth < t.toJson.depth) {d : Draft}
    (hd : d.Holds t.toJson) : ∃ m, decode ⟨.direct maxDepth, d⟩ = .error (.placed .tooDeep m) := by
  obtain ⟨tag, ms, hms, hjson⟩ := t.toJson_eq
  rw [hjson] at hd hdepth
  have hdeep : 125 < depthMembers ms := by
    simp only [depth, depthMembers, depth_extent] at hdepth
    have hmax : maxDepth = 127 := rfl
    omega
  obtain ⟨start, members, rfl, hold⟩ := exists_of_holds_obj hd
  obtain ⟨m₁, k₁, d₁, rest, rfl, hk₁, hd₁, hold⟩ := exists_of_hold_cons hold
  obtain ⟨m₂, k₂, d₂, rest, rfl, hk₂, hd₂, hold⟩ := exists_of_hold_cons hold
  have hroom : (Mode.direct 126).HasRoom 1 := by
    show 1 ≤ 126
    decide
  -- The extent stands in front and is decoded, so the fault is the one of the node.
  have hextent := Extent.decodes ht.extent t.extent.toJson_spelled hroom d₁ hd₁
  obtain ⟨m, hm⟩ := @decodeShape_tooDeep (Decoder.list (decodeLevels 126)) tag ms hms 125 hdeep d₂ hd₂
  refine ⟨m, ?_⟩
  show Gather.ofMembers (shape (Decoder.list (decodeLevels 126))) (.direct 126) {} _ = _
  simp [Gather.ofMembers, hk₁, hk₂, Shape.field?, shape, Field.required, hextent, hm, Except.map, Mode.settle, Fault.placed]

end Script

end ShellDecl
