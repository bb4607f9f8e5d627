import ShellDecl.Json.Decoder
import ShellDecl.Proofs.Json.Draft
import ShellDecl.Proofs.Json.Spelling

/-!
# Gathering the fields of an object

The fields of a record are gathered in the order of an object's members. What is found in the end depends only on the
members that a field has names for, not on their order nor on any others: each field is stored in a column of its own.
A field that was found once is never stored a second time.
-/

set_option autoImplicit false

namespace ShellDecl.Json

/-- Whatever draft holds the value is decoded to `b`. -/
def Decodes {β : Type} (decode : Decoder β) (mode : Mode) (w : Json) (b : β) : Prop :=
  ∀ d : Draft, d.Holds w → decode ⟨mode, d⟩ = .ok b

/-- No draft that holds the value is decoded. -/
def Refuses {β : Type} (decode : Decoder β) (w : Json) : Prop :=
  ∀ (mode : Mode) (d : Draft), d.Holds w → ∀ b, decode ⟨mode, d⟩ ≠ .ok b

namespace Mode

/-- There is a number of levels left to go down; a value that was kept has any. -/
def HasRoom (mode : Mode) (n : Nat) : Prop :=
  match mode with
  | .direct depth => n ≤ depth
  | .kept => True

def inner : Mode → Mode
  | .direct depth => .direct (depth - 1)
  | .kept => .kept

theorem HasRoom.inner {mode : Mode} {n : Nat} (h : mode.HasRoom (n + 1)) : mode.inner.HasRoom n := by
  cases mode with
  | direct depth => exact Nat.le_sub_one_of_lt h
  | kept => trivial

theorem HasRoom.mono {mode : Mode} {m n : Nat} (h : mode.HasRoom n) (hmn : m ≤ n) : mode.HasRoom m := by
  cases mode with
  | direct depth => exact Nat.le_trans hmn h
  | kept => trivial

theorem enter_of_hasRoom {mode : Mode} (h : mode.HasRoom 1) (start : Spot) : mode.enter start = .ok mode.inner := by
  cases mode with
  | direct depth =>
    cases depth with
    | zero => exact absurd h (Nat.not_succ_le_zero 0)
    | succ depth => rfl
  | kept => rfl

end Mode

namespace Gather

variable {σ α β : Type} {s : Shape σ α Source Fault} {mode : Mode}

/-- The field with the given names is stored where `get` finds it, as `decode` reads it, and no other field is stored
there. -/
structure Column (s : Shape σ α Source Fault) (names : List String) (get : σ → Option β) (decode : Decoder β) :
    Prop where
  present : ∃ f ∈ s.fields, f.names = names
  own : ∀ f ∈ s.fields, f.names = names → (∀ x, f.isSet x = (get x).isSome) ∧
    ∃ set : β → σ → σ, (∀ src x, f.decode src x = (decode src).map (set · x)) ∧ ∀ b x, get (set b x) = some b
  other : ∀ f ∈ s.fields, f.names ≠ names → ∀ src x x', f.decode src x = .ok x' → get x' = get x

/-- Each field has a column and names of its own, and nothing is found at the start. -/
structure Lawful (s : Shape σ α Source Fault) : Prop where
  column : ∀ f ∈ s.fields, ∃ (β : Type) (get : σ → Option β) (decode : Decoder β), Column s f.names get decode
  apart : ∀ f ∈ s.fields, ∀ g ∈ s.fields, ∀ k ∈ f.names, k ∈ g.names → f.names = g.names
  fresh : ∀ f ∈ s.fields, f.isSet s.empty = false

theorem mem_of_field? {k : String} {f : Field σ Source Fault} (h : s.field? k = some f) :
    f ∈ s.fields ∧ k ∈ f.names :=
  ⟨List.mem_of_find?_eq_some h, by simpa using List.find?_some h⟩

theorem map_eq_ok {γ : Type} {r : Except Fault β} {g : β → γ} {x : γ} :
    r.map g = .ok x ↔ ∃ b, r = .ok b ∧ g b = x := by
  cases r <;> simp [Except.map]

theorem bind_eq_ok {γ : Type} {r : Except Fault β} {g : β → Except Fault γ} {c : γ} :
    (r >>= g) = .ok c ↔ ∃ b, r = .ok b ∧ g b = .ok c := by
  cases r <;> simp [bind, Except.bind]

theorem throwIf_eq_ok {fault? : Option Fault} {r : Except Fault β} {b : β} :
    Decoder.throwIf fault? r = .ok b ↔ fault? = none ∧ r = .ok b := by
  cases fault? <;> simp [Decoder.throwIf]

theorem Column.decode_eq_ok {names : List String} {get : σ → Option β} {decode : Decoder β}
    (column : Column s names get decode) {f : Field σ Source Fault} (hf : f ∈ s.fields) (hnames : f.names = names)
    {src : Source} {x x' : σ} (h : f.decode src x = .ok x') : ∃ b, decode src = .ok b := by
  obtain ⟨-, set, hset, -⟩ := column.own f hf hnames
  rw [hset, map_eq_ok] at h
  obtain ⟨b, hb, -⟩ := h
  exact ⟨b, hb⟩

theorem Lawful.isSet_iff (h : Lawful s) {f g : Field σ Source Fault} (hf : f ∈ s.fields) (hg : g ∈ s.fields)
    {src : Source} {x x' : σ} (hx : f.decode src x = .ok x') :
    g.isSet x' = true ↔ f.names = g.names ∨ g.isSet x = true := by
  obtain ⟨β, get, decode, column⟩ := h.column g hg
  obtain ⟨hisSet, -⟩ := column.own g hg rfl
  rw [hisSet, hisSet]
  by_cases hfg : f.names = g.names
  · obtain ⟨-, set, hset, hget⟩ := column.own f hf hfg
    rw [hset, map_eq_ok] at hx
    obtain ⟨b, -, rfl⟩ := hx
    simp [hfg, hget]
  · simp [hfg, column.other f hf hfg src x x' hx]

theorem Column.single {names : List String} {get : σ → Option β} {set : β → σ → σ} {decode : Decoder β}
    (hfields : s.fields = [.defaulted names get set decode]) (hget : ∀ b x, get (set b x) = some b) :
    Column s names get decode := by
  constructor
  · exact ⟨_, hfields ▸ List.mem_singleton_self _, rfl⟩
  · intro f hf hnames
    rw [hfields, List.mem_singleton] at hf
    subst hf
    exact ⟨fun x => rfl, set, fun src x => rfl, hget⟩
  · intro f hf hnames
    rw [hfields, List.mem_singleton] at hf
    subst hf
    exact absurd rfl hnames

theorem Lawful.single {names : List String} {get : σ → Option β} {set : β → σ → σ} {decode : Decoder β}
    (hfields : s.fields = [.defaulted names get set decode]) (hget : ∀ b x, get (set b x) = some b)
    (hempty : get s.empty = none) : Lawful s where
  column := by
    intro f hf
    rw [hfields, List.mem_singleton] at hf
    subst hf
    exact ⟨β, get, decode, Column.single hfields hget⟩
  apart := by
    intro f hf g hg k _ _
    rw [hfields, List.mem_singleton] at hf hg
    rw [hf, hg]
  fresh := by
    intro f hf
    rw [hfields, List.mem_singleton] at hf
    subst hf
    simp [Field.defaulted, hempty]

/-- A run over the members of an object: each is passed over or stored in its field, which was not stored before. -/
inductive Gathers (s : Shape σ α Source Fault) (mode : Mode) : σ → List (String × Json) → σ → Prop where
  | nil (x : σ) : Gathers s mode x [] x
  | pass {k : String} {w : Json} {ms : List (String × Json)} {x y : σ} (h : s.field? k = none)
      (more : Gathers s mode x ms y) : Gathers s mode x ((k, w) :: ms) y
  | take {k : String} {w : Json} {ms : List (String × Json)} {x x' y : σ} {f : Field σ Source Fault} {d : Draft}
      (h : s.field? k = some f) (hfresh : f.isSet x = false) (hd : d.Holds w) (hx : f.decode ⟨mode, d⟩ x = .ok x')
      (more : Gathers s mode x' ms y) : Gathers s mode x ((k, w) :: ms) y

theorem passOver_of_holds {d : Draft} {w : Json} (h : d.Holds w) : passOver mode d = none := by
  cases mode with
  | direct depth => exact d.passed?_of_holds h
  | kept => rfl

/-! ## What a run finds -/

theorem Column.of_not_given {names : List String} {get : σ → Option β} {decode : Decoder β}
    (column : Column s names get decode) {x y : σ} {ms : List (String × Json)} (h : Gathers s mode x ms y)
    (hms : given names ms = []) : get y = get x := by
  induction h with
  | nil x => rfl
  | @pass k w ms x y hk more ih =>
    apply ih
    by_cases hkn : k ∈ names
    · simp [given_cons_of_mem hkn] at hms
    · rwa [given_cons_of_not_mem hkn] at hms
  | @take k w ms x x' y f d hk hfresh hd hx more ih =>
    have hkn : k ∉ names := by
      intro hkn
      simp [given_cons_of_mem hkn] at hms
    rw [given_cons_of_not_mem hkn] at hms
    obtain ⟨hf, hkf⟩ := mem_of_field? hk
    rw [ih hms, column.other f hf (fun heq => hkn (heq ▸ hkf)) _ _ _ hx]

/-- The one member that is given is what is found in the column. -/
theorem Column.of_given (hs : Lawful s) {names : List String} {get : σ → Option β} {decode : Decoder β}
    (column : Column s names get decode) {x y : σ}
    {ms : List (String × Json)} (h : Gathers s mode x ms y) {k : String} {w : Json} (hms : given names ms = [(k, w)])
    {b : β} (hw : Decodes decode mode w b) : get y = some b := by
  induction h with
  | nil x => simp [given] at hms
  | @pass k' w' ms x y hk more ih =>
    apply ih
    by_cases hkn : k' ∈ names
    · obtain ⟨g, hg, rfl⟩ := column.present
      have hnone := List.find?_eq_none.mp hk g hg
      simp [hkn] at hnone
    · rwa [given_cons_of_not_mem hkn] at hms
  | @take k' w' ms x x' y f d hk hfresh hd hx more ih =>
    obtain ⟨hf, hkf⟩ := mem_of_field? hk
    by_cases hkn : k' ∈ names
    · rw [given_cons_of_mem hkn] at hms
      obtain ⟨g, hg, rfl⟩ := column.present
      obtain ⟨-, set, hset, hget⟩ := column.own f hf (hs.apart f hf g hg k' hkf hkn)
      -- Behind the one member of the column nothing changes it.
      obtain ⟨⟨rfl, rfl⟩, hrest⟩ : (k' = k ∧ w' = w) ∧ given g.names ms = [] := by simpa using hms
      rw [hset, hw d hd] at hx
      obtain rfl : set b x = x' := by simpa [Except.map] using hx
      rw [column.of_not_given more hrest, hget]
    · rw [given_cons_of_not_mem hkn] at hms
      exact ih hms

/-! ## Which runs there are -/

def Supplied (mode : Mode) (ms : List (String × Json)) (f : Field σ Source Fault) : Prop :=
  (given f.names ms).length ≤ 1 ∧
    ∀ m ∈ given f.names ms, ∀ (d : Draft) (x : σ), d.Holds m.2 → ∃ x', f.decode ⟨mode, d⟩ x = .ok x'

theorem Supplied.of_cons {m : String × Json} {ms : List (String × Json)} {f : Field σ Source Fault}
    (h : Supplied mode (m :: ms) f) : Supplied mode ms f := by
  have hsub : List.Sublist (given f.names ms) (given f.names (m :: ms)) := (List.sublist_cons_self m ms).filter _
  exact ⟨hsub.length_le.trans h.1, fun m' hm' => h.2 m' (hsub.mem hm')⟩

/-- When every field is supplied the run goes through. -/
theorem exists_gathers (hs : Lawful s) (members : Members) {ms : List (String × Json)} (hold : members.Hold ms)
    (x : σ) (hsupplied : ∀ f ∈ s.fields, Supplied mode ms f)
    (hfresh : ∀ f ∈ s.fields, f.isSet x = true → given f.names ms = []) :
    ∃ y settled, Gathers s mode x ms y ∧ ofMembers s mode x members = conclude s mode settled y := by
  -- A field that is set is given no more: this is what makes the next member of a field a new one.
  induction ms generalizing members x with
  | nil =>
    obtain ⟨settled, rfl⟩ := exists_of_hold_nil hold
    exact ⟨x, settled, .nil x, rfl⟩
  | cons m ms ih =>
    obtain ⟨k, w⟩ := m
    obtain ⟨settled, key, d, rest, rfl, hkey, hd, hrest⟩ := exists_of_hold_cons hold
    have hsupplied' : ∀ f ∈ s.fields, Supplied mode ms f := fun f hf => (hsupplied f hf).of_cons
    cases hk : s.field? k with
    | none =>
      have hfresh' : ∀ f ∈ s.fields, f.isSet x = true → given f.names ms = [] := by
        intro f hf hset
        have hkf : k ∉ f.names := by simpa using List.find?_eq_none.mp hk f hf
        rw [← given_cons_of_not_mem hkf w]
        exact hfresh f hf hset
      obtain ⟨y, settled', hrun, hy⟩ := ih rest hrest x hsupplied' hfresh'
      refine ⟨y, settled', .pass hk hrun, ?_⟩
      simp only [ofMembers, hkey, hk, passOver_of_holds hd, Decoder.throwIf, hy]
    | some f =>
      obtain ⟨hf, hkf⟩ := mem_of_field? hk
      have hmem : (k, w) ∈ given f.names ((k, w) :: ms) := mem_given.mpr ⟨by simp, hkf⟩
      obtain ⟨x', hx⟩ := (hsupplied f hf).2 _ hmem d x hd
      have hunset : f.isSet x = false := by
        by_contra hset
        rw [hfresh f hf (by simpa using hset)] at hmem
        simp at hmem
      have hfresh' : ∀ g ∈ s.fields, g.isSet x' = true → given g.names ms = [] := by
        intro g hg hset
        obtain hfg | hset := (hs.isSet_iff hf hg hx).mp hset
        · have hlength := (hsupplied g hg).1
          rw [given_cons_of_mem (hfg ▸ hkf), List.length_cons] at hlength
          exact List.eq_nil_of_length_eq_zero (by omega)
        · have hnil := hfresh g hg hset
          exact List.sublist_nil.mp (hnil ▸ (List.sublist_cons_self _ ms).filter _)
      obtain ⟨y, settled', hrun, hy⟩ := ih rest hrest x' hsupplied' hfresh'
      refine ⟨y, settled', .take hk hunset hd hx hrun, ?_⟩
      simp only [ofMembers, hkey, hk, hunset, hx, hy, Bool.false_eq_true, if_false]

/-- Any result comes from a run. -/
theorem gathers_of_ok (members : Members) {ms : List (String × Json)} (hold : members.Hold ms) {x : σ} {a : α}
    (h : ofMembers s mode x members = .ok a) : ∃ y, Gathers s mode x ms y := by
  induction ms generalizing members x with
  | nil => exact ⟨x, .nil x⟩
  | cons m ms ih =>
    obtain ⟨k, w⟩ := m
    obtain ⟨settled, key, d, rest, rfl, hkey, hd, hrest⟩ := exists_of_hold_cons hold
    simp only [ofMembers, hkey] at h
    cases hk : s.field? k with
    | none =>
      simp only [hk, passOver_of_holds hd, Decoder.throwIf] at h
      obtain ⟨y, hrun⟩ := ih rest hrest h
      exact ⟨y, .pass hk hrun⟩
    | some f =>
      simp only [hk] at h
      split at h
      · simp at h
      · rename_i hunset
        cases hx : f.decode ⟨mode, d⟩ x with
        | error e => simp [hx] at h
        | ok x' =>
          simp only [hx] at h
          obtain ⟨y, hrun⟩ := ih rest hrest h
          exact ⟨y, .take hk (by simpa using hunset) hd hx hrun⟩

theorem Gathers.given_eq_nil (hs : Lawful s) {x y : σ} {ms : List (String × Json)} (h : Gathers s mode x ms y)
    {f : Field σ Source Fault} (hf : f ∈ s.fields) (hset : f.isSet x = true) : given f.names ms = [] := by
  induction h with
  | nil x => rfl
  | @pass k w ms x y hk more ih =>
    have hkf : k ∉ f.names := by simpa using List.find?_eq_none.mp hk f hf
    rw [given_cons_of_not_mem hkf, ih hset]
  | @take k w ms x x' y g d hk hfresh hd hx more ih =>
    obtain ⟨hg, hkg⟩ := mem_of_field? hk
    have hkf : k ∉ f.names := by
      intro hkf
      have heq := hs.apart g hg f hf k hkg hkf
      obtain ⟨β, get, decode, column⟩ := hs.column f hf
      rw [(column.own g hg heq).1, ← (column.own f hf rfl).1, hset] at hfresh
      cases hfresh
    rw [given_cons_of_not_mem hkf]
    exact ih ((hs.isSet_iff hg hf hx).mpr (.inr hset))

/-- No field is given twice. -/
theorem Gathers.length_given_le (hs : Lawful s) {x y : σ} {ms : List (String × Json)} (h : Gathers s mode x ms y)
    {f : Field σ Source Fault} (hf : f ∈ s.fields) : (given f.names ms).length ≤ 1 := by
  induction h with
  | nil x => simp [given]
  | @pass k w ms x y hk more ih =>
    have hkf : k ∉ f.names := by simpa using List.find?_eq_none.mp hk f hf
    rwa [given_cons_of_not_mem hkf]
  | @take k w ms x x' y g d hk hfresh hd hx more ih =>
    obtain ⟨hg, hkg⟩ := mem_of_field? hk
    by_cases hkf : k ∈ f.names
    · have hset := (hs.isSet_iff hg hf hx).mpr (.inl (hs.apart g hg f hf k hkg hkf))
      rw [given_cons_of_mem hkf, more.given_eq_nil hs hf hset, List.length_singleton]
    · rwa [given_cons_of_not_mem hkf]

theorem Column.length_given_le {names : List String} {get : σ → Option β} {decode : Decoder β}
    (column : Column s names get decode) (hs : Lawful s) {members : Members} {ms : List (String × Json)} (hold : members.Hold ms)
    {x : σ} {a : α} (h : ofMembers s mode x members = .ok a) : (given names ms).length ≤ 1 := by
  obtain ⟨y, hrun⟩ := gathers_of_ok members hold h
  obtain ⟨f, hf, rfl⟩ := column.present
  exact hrun.length_given_le hs hf

theorem Gathers.decoded (hs : Lawful s) {names : List String} {get : σ → Option β} {decode : Decoder β}
    (column : Column s names get decode) {x y : σ}
    {ms : List (String × Json)} (h : Gathers s mode x ms y) {k : String} {w : Json} (hm : (k, w) ∈ given names ms) :
    ∃ d b, d.Holds w ∧ decode ⟨mode, d⟩ = .ok b := by
  induction h with
  | nil x => simp [given] at hm
  | @pass k' w' ms x y hk more ih =>
    obtain ⟨g, hg, rfl⟩ := column.present
    have hkg : k' ∉ g.names := by simpa using List.find?_eq_none.mp hk g hg
    rw [given_cons_of_not_mem hkg] at hm
    exact ih hm
  | @take k' w' ms x x' y f d hk hfresh hd hx more ih =>
    by_cases hkn : k' ∈ names
    · rw [given_cons_of_mem hkn, List.mem_cons] at hm
      obtain heq | hm := hm
      · obtain ⟨rfl, rfl⟩ := Prod.mk.inj heq
        obtain ⟨hf, hkf⟩ := mem_of_field? hk
        obtain ⟨g, hg, rfl⟩ := column.present
        obtain ⟨b, hb⟩ := column.decode_eq_ok hf (hs.apart f hf g hg _ hkf hkn) hx
        exact ⟨d, b, hd, hb⟩
      · exact ih hm
    · rw [given_cons_of_not_mem hkn] at hm
      exact ih hm

/-! ## Records -/

structure Stored (s : Shape σ α Source Fault) (mode : Mode) (ms : List (String × Json)) (e : Slot)
    (get : σ → Option β) (b : β) : Prop where
  supplied : ∀ f ∈ s.fields, f.names = e.names → Supplied mode ms f
  found : ∀ y, Gathers s mode s.empty ms y → get y = some b ∨ (e.omissible ∧ get y = none)

theorem Column.stored (hs : Lawful s) {e : Slot} {get : σ → Option β} {decode : Decoder β}
    (column : Column s e.names get decode) {ms : List (String × Json)} (h : e.Spelled ms) (mode : Mode) {b : β}
    (hvalue : ∀ k w, (k, w) ∈ given e.names ms → e.value w → Decodes decode mode w b) : Stored s mode ms e get b where
  supplied := by
    intro f hf hfe
    obtain ⟨-, set, hset, -⟩ := column.own f hf hfe
    obtain ⟨k, w, hms, hw⟩ | ⟨-, hms⟩ := h
    · have hmem : (k, w) ∈ given e.names ms := hms ▸ List.mem_singleton_self _
      refine ⟨by simp [hfe, hms], ?_⟩
      intro m hm d x hd
      obtain rfl : m = (k, w) := by simpa [hfe, hms] using hm
      exact ⟨set b x, by rw [hset, hvalue k w hmem hw d hd]; rfl⟩
    · exact ⟨by simp [hfe, hms], by simp [hfe, hms]⟩
  found := by
    intro y hrun
    have hempty : get s.empty = none := by
      obtain ⟨f, hf, hfe⟩ := column.present
      simpa [(column.own f hf hfe).1] using hs.fresh f hf
    obtain ⟨k, w, hms, hw⟩ | ⟨ho, hms⟩ := h
    · have hmem : (k, w) ∈ given e.names ms := hms ▸ List.mem_singleton_self _
      exact .inl (column.of_given hs hrun hms (hvalue k w hmem hw))
    · exact .inr ⟨ho, (column.of_not_given hrun hms).trans hempty⟩

theorem Stored.get_eq {ms : List (String × Json)} {e : Slot} {get : σ → Option β} {b : β}
    (h : Stored s mode ms e get b) (he : ¬e.omissible) {y : σ} (hrun : Gathers s mode s.empty ms y) :
    get y = some b := by
  obtain hy | ⟨ho, -⟩ := h.found y hrun
  · exact hy
  · exact absurd ho he

theorem Stored.getD_eq {ms : List (String × Json)} {e : Slot} {get : σ → Option β} {b default : β}
    (h : Stored s mode ms e get b) (he : e.omissible → b = default) {y : σ} (hrun : Gathers s mode s.empty ms y) :
    (get y).getD default = b := by
  obtain hy | ⟨ho, hy⟩ := h.found y hrun
  · simp [hy]
  · simp [hy, he ho]

/-- When all fields are spelled the members are gathered, whatever else they are. -/
theorem ofMembers_eq_ok (hs : Lawful s) (members : Members) {ms : List (String × Json)} (hold : members.Hold ms)
    {slots : List Slot} (hsupplied : ∀ e ∈ slots, ∀ f ∈ s.fields, f.names = e.names → Supplied mode ms f)
    (hnames : s.fields.map Field.names = slots.map Slot.names) {a : α}
    (hfinish : ∀ y, Gathers s mode s.empty ms y → s.finish y = .ok a) : ofMembers s mode s.empty members = .ok a := by
  have hall : ∀ f ∈ s.fields, Supplied mode ms f := by
    intro f hf
    have hmem : f.names ∈ slots.map Slot.names := hnames ▸ List.mem_map_of_mem hf
    obtain ⟨e, he, heq⟩ := List.mem_map.mp hmem
    exact hsupplied e he f hf heq.symm
  obtain ⟨y, settled, hrun, hy⟩ := exists_gathers hs members hold s.empty hall
    fun f hf hset => by simp [hs.fresh f hf] at hset
  rw [hy, conclude, hfinish y hrun]
  rfl

theorem record_decodes (hs : Lawful s) (hroom : mode.HasRoom 1) {slots : List Slot} {w : Json}
    (hw : Object slots w) (hnames : s.fields.map Field.names = slots.map Slot.names) {a : α}
    (h : ∀ ms, w = .obj ms → (∀ e ∈ slots, e.Spelled ms) →
      (∀ e ∈ slots, ∀ f ∈ s.fields, f.names = e.names → Supplied mode.inner ms f) ∧
        ∀ y, Gathers s mode.inner s.empty ms y → s.finish y = .ok a) :
    Decodes (record s) mode w a := by
  obtain ⟨ms, rfl, hslots⟩ := hw
  obtain ⟨hsupplied, hfinish⟩ := h ms rfl hslots
  intro d hd
  obtain ⟨start, members, rfl, hold⟩ := exists_of_holds_obj hd
  simp only [record, Mode.enter_of_hasRoom hroom start]
  exact ofMembers_eq_ok hs members hold hsupplied hnames hfinish

theorem gathers_of_record {d : Draft} {ms : List (String × Json)} (hd : d.Holds (.obj ms)) {a : α}
    (h : record s ⟨mode, d⟩ = .ok a) :
    ∃ start inner y, mode.enter start = .ok inner ∧ Gathers s inner s.empty ms y := by
  obtain ⟨start, members, rfl, hold⟩ := exists_of_holds_obj hd
  obtain ⟨inner, henter, h⟩ := bind_eq_ok.mp h
  obtain ⟨y, hrun⟩ := gathers_of_ok members hold h
  exact ⟨start, inner, y, henter, hrun⟩

/-- A record is refused when one of its fields is given twice. -/
theorem record_refuses_twice (hs : Lawful s) {names : List String} {get : σ → Option β} {decode : Decoder β}
    (column : Column s names get decode) {w : Json} (h : Twice names w) : Refuses (record s) w := by
  obtain ⟨ms, rfl, hms⟩ := h
  intro mode d hd a ha
  obtain ⟨start, inner, y, -, hrun⟩ := gathers_of_record hd ha
  obtain ⟨f, hf, rfl⟩ := column.present
  exact absurd hms (Nat.not_le_of_lt (Nat.lt_succ_of_le (hrun.length_given_le hs hf)))

theorem decoded_of_items {names : List String} {get : σ → Option β} {decode : Decoder β}
    (column : Column s names get decode) (items : Items) {vs : List Json} (hold : items.Hold vs)
    {fields : List (Field σ Source Fault)} (hfields : ∀ f ∈ fields, f ∈ s.fields) {index i : Nat} {x : σ} {a : α}
    (h : ofItems s mode index x fields items = .ok a) {f : Field σ Source Fault} (hf : fields[i]? = some f)
    (hnames : f.names = names) {v : Json} (hv : vs[i]? = some v) :
    ∃ d b, d.Holds v ∧ decode ⟨mode, d⟩ = .ok b := by
  induction vs generalizing items fields index i x with
  | nil => simp at hv
  | cons w vs ih =>
    obtain ⟨d, rest, rfl, hd, hrest⟩ := exists_of_hold_items hold
    cases fields with
    | nil => simp at hf
    | cons g fields =>
      simp only [ofItems] at h
      cases hx : g.decode ⟨mode, d⟩ x with
      | error e => simp [hx] at h
      | ok x' =>
        simp only [hx] at h
        cases i with
        | zero =>
          obtain rfl : g = f := by simpa using hf
          obtain rfl : w = v := by simpa using hv
          obtain ⟨b, hb⟩ := column.decode_eq_ok (hfields g (by simp)) hnames hx
          exact ⟨d, b, hd, hb⟩
        | succ i =>
          exact ih rest hrest (fun f hf => hfields f (by simp [hf])) h (by simpa using hf) (by simpa using hv)

theorem record_refuses_gives (hs : Lawful s) {names : List String} {get : σ → Option β} {decode : Decoder β}
    (column : Column s names get decode) {i : Nat} {f : Field σ Source Fault} (hf : s.fields[i]? = some f)
    (hnames : f.names = names) {w v : Json} (hgives : Gives names i w v) (hv : Refuses decode v) :
    Refuses (record s) w := by
  intro mode d hd a ha
  suffices h : ∃ inner d b, d.Holds v ∧ decode ⟨inner, d⟩ = .ok b by
    obtain ⟨inner, d, b, hd, hb⟩ := h
    exact hv inner d hd b hb
  obtain ⟨ms, k, rfl, hk⟩ | ⟨vs, rfl, hi⟩ := hgives
  · obtain ⟨start, inner, y, -, hrun⟩ := gathers_of_record hd ha
    exact ⟨inner, hrun.decoded hs column hk⟩
  · obtain ⟨start, items, rfl, hold⟩ := exists_of_holds_arr hd
    obtain ⟨inner, -, ha⟩ := bind_eq_ok.mp ha
    exact ⟨inner, decoded_of_items column items hold (fun f hf => hf) ha hf hnames hi⟩

end Gather

end ShellDecl.Json
