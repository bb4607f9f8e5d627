import ShellDecl.Proofs.Json.AnySpelling
import ShellDecl.Settings.Store

/-!
# Runs on the settings store

The settings that are stored after a run are those of the last step that carried any. What a step carries is seen from
the step alone: a notice carries the settings of its section, and none if it cannot be decoded or has no section. So
nothing of an earlier section is left over in a later one, and a step that fails leaves no trace.
-/

set_option autoImplicit false

namespace ShellDecl

open Json

def SettingsNotice.ofText? (text : String) : Option SettingsNotice :=
  (Decoder.ofText (decode format) text).toOption

theorem SettingsNotice.ofText?_spelled {n : SettingsNotice} {w : Json} {text : String} (hw : n.Spelled w)
    (htext : Writes w text.toList) : ofText? text = some n := by
  have hroom : (Mode.direct maxDepth).HasRoom 3 := show 3 ≤ maxDepth by decide
  have hok := (SettingsNotice.decodes hw hroom).ofText htext
  rw [ofText?, hok]
  rfl

namespace ServerSettings

/-- The settings that a step carries. -/
def Step.carried : Step → Option ServerSettings
  | .snapshot => none
  | .apply new => new
  | .notify text => (SettingsNotice.ofText? text).bind SettingsNotice.server

/-- A step is refused if it is a notice that cannot be decoded. -/
def Step.Refused (step : Step) : Prop :=
  ∃ text, step = .notify text ∧ SettingsNotice.ofText? text = none

theorem update_eq_getD (s : ServerSettings) (new : Option ServerSettings) : s.update new = new.getD s := by
  cases new <;> rfl

/-! ## One step -/

theorem notify_eq (s : ServerSettings) (text : String) :
    (∃ e, SettingsNotice.ofText? text = none ∧ s.notify text = .error e) ∨
      ∃ n, SettingsNotice.ofText? text = some n ∧ s.notify text = .ok (n.server.getD s) := by
  unfold notify ofNotice SettingsNotice.ofText?
  cases Decoder.ofText (SettingsNotice.decode format) text with
  | error f => exact .inl ⟨_, rfl, rfl⟩
  | ok n => exact .inr ⟨n, rfl, congrArg Except.ok (s.update_eq_getD n.server)⟩

/-- Either a step is refused and carries nothing, or it answers with what it carries, or else with the settings as
they are. -/
theorem answer_eq (s : ServerSettings) (step : Step) :
    (∃ e, step.Refused ∧ step.carried = none ∧ s.answer step = .error e) ∨
      ¬step.Refused ∧ s.answer step = .ok (step.carried.getD s) := by
  cases step with
  | snapshot => exact .inr ⟨by simp [Step.Refused], rfl⟩
  | apply new => exact .inr ⟨by simp [Step.Refused], congrArg Except.ok (s.update_eq_getD new)⟩
  | notify text =>
    obtain ⟨e, hnone, he⟩ | ⟨n, hsome, hn⟩ := s.notify_eq text
    · exact .inl ⟨e, ⟨text, rfl, hnone⟩, by rw [Step.carried, hnone]; rfl, he⟩
    · refine .inr ⟨?_, ?_⟩
      · rintro ⟨text', htext, hnone⟩
        obtain rfl := Step.notify.inj htext
        rw [hsome] at hnone
        cases hnone
      · rw [Step.carried, hsome]
        exact hn

theorem after_eq (s : ServerSettings) (step : Step) : s.after step = step.carried.getD s := by
  obtain ⟨e, -, hnone, he⟩ | ⟨-, hok⟩ := s.answer_eq step
  · rw [after, he, hnone]
    rfl
  · rw [after, hok]

/-- How a step answers and what it makes of the stored settings. -/
structure Settles (now : ServerSettings) (step : Step) (answer : Except SettingsError ServerSettings)
    (next : ServerSettings) : Prop where
  answered : ∀ new, answer = .ok new → new = next
  refused : (∃ e, answer = .error e) ↔ step.Refused
  kept : ∀ e, answer = .error e → next = now
  untouched : step.carried = none → next = now
  replaced : ∀ new, step.carried = some new → answer = .ok new ∧ next = new

theorem settles_after (s : ServerSettings) (step : Step) : Settles s step (s.answer step) (s.after step) := by
  rw [after_eq]
  obtain ⟨e, hrefused, hnone, he⟩ | ⟨hrefused, hok⟩ := s.answer_eq step
  · rw [he, hnone]
    exact ⟨by simp, by simp [hrefused], by simp, by simp, by simp [hnone]⟩
  · rw [hok]
    refine ⟨fun new h => (Except.ok.inj h).symm, by simp [hrefused], by simp, ?_, ?_⟩
    · intro hnone
      rw [hnone]
      rfl
    · intro new hsome
      rw [hsome]
      exact ⟨rfl, rfl⟩

/-! ## A whole run -/

theorem run_append (s : ServerSettings) (steps more : List Step) :
    s.run (steps ++ more) =
      ((s.run steps).1 ++ ((s.run steps).2.run more).1, ((s.run steps).2.run more).2) := by
  induction steps generalizing s with
  | nil => rfl
  | cons step steps ih => simp [run, ih]

theorem length_run (s : ServerSettings) (steps : List Step) : (s.run steps).1.length = steps.length := by
  induction steps generalizing s with
  | nil => rfl
  | cons step steps ih => simp [run, ih]

theorem stored_run (s : ServerSettings) (steps : List Step) :
    (s.run steps).2 = (steps.filterMap Step.carried).getLast?.getD s := by
  induction steps generalizing s with
  | nil => rfl
  | cons step steps ih =>
    have hrun : (s.run (step :: steps)).2 = ((s.after step).run steps).2 := rfl
    rw [hrun, ih, after_eq]
    cases hcarried : step.carried with
    | none => rw [List.filterMap_cons_none hcarried, Option.getD_none]
    | some new => rw [List.filterMap_cons_some hcarried, List.getLast?_cons, Option.getD_some, Option.getD_some]

/-- The settings stored after a run are those of the last step that carried any, or the first ones. Each step on the
way settles what is stored before it, and a notice carries what any spelling of it says. -/
theorem run_stores_last_carried (s : ServerSettings) (steps : List Step) :
    (s.run steps).2 = (steps.filterMap Step.carried).getLast?.getD s ∧
      (s.run steps).1.length = steps.length ∧
      (∀ before step rest, steps = before ++ step :: rest →
        ∃ answer, (s.run steps).1[before.length]? = some answer ∧
          Settles (s.run before).2 step answer (s.run (before ++ [step])).2) ∧
      ∀ (n : SettingsNotice) (w : Json) (text : String), n.Spelled w → Writes w text.toList →
        Step.carried (.notify text) = n.server := by
  refine ⟨s.stored_run steps, s.length_run steps, ?_, ?_⟩
  · rintro before step rest rfl
    refine ⟨(s.run before).2.answer step, ?_, ?_⟩
    · rw [run_append, ← s.length_run before, List.getElem?_append_right (Nat.le_refl _), Nat.sub_self]
      rfl
    · rw [run_append]
      exact settles_after _ step
  · intro n w text hw htext
    rw [Step.carried, SettingsNotice.ofText?_spelled hw htext]
    rfl

/-- An empty section brings back the defaults, an empty part of it clears both fields, and what cannot be decoded or
has no section changes nothing. -/
theorem run_stores_last_carried_mixed :
    (run ⟨⟨some false, some "a"⟩⟩ [.notify (Json.obj [("Powershell", .obj [])]).compact,
        .notify (Json.obj [("other", .nat 1)]).compact, .snapshot]).2 = {} ∧
      (run {} [.apply (some ⟨⟨some true, some "a"⟩⟩),
        .notify (Json.obj [("powershell", .obj [("analysis", .obj [])])]).compact, .notify "no notice",
        .apply none]).2 = ⟨⟨none, none⟩⟩ ∧
      (∃ answer, (run {} [.notify "no notice", .snapshot]).1[0]? = some answer ∧
        Settles {} (.notify "no notice") answer {}) ∧
      Step.carried (.notify SettingsNotice.turned.compact) = some ⟨⟨some false, none⟩⟩ := by
  refine ⟨?_, ?_, ?_, ?_⟩
  · rw [(run_stores_last_carried _ _).1]
    decide +kernel
  · rw [(run_stores_last_carried _ _).1]
    decide +kernel
  · exact (run_stores_last_carried {} [.notify "no notice", .snapshot]).2.2.1 [] _ _ rfl
  · exact (run_stores_last_carried {} []).2.2.2 _ _ _ SettingsNotice.turned_spelled
      SettingsNotice.turned_readable.writes_compact

end ServerSettings

end ShellDecl
