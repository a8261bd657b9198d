/-
# What tabs do to the text

`processTab` takes the tabs out one by one and replaces the text before each by
what the callback completes it to. With `TelnetTabCallback` that is the text
itself with the rest of the one command it begins (`tabComplete_eq`), so what
was typed stays, in its order, and completions stand where the tabs stood
(`processTab_completed`).

Key definitions: `missingSuffix`, `withTabs`, `completed`.
Key theorems: `tabComplete_eq`, `processTabLoop_completed`, `processTab_completed`.
-/
import RepoInit.Telnet.Editing

namespace RepoInit
namespace Telnet

open Search

/-- What the one command that begins with the text has behind it; nothing if
none or several do. -/
def missingSuffix (text : Str) : Str :=
  match (telnetCommands.map (·.1)).filter fun entry => text <+: entry with
  | [entry] => entry.drop text.length
  | _ => []

/-- Texts with a tab between each two. -/
def withTabs (text : Str) (texts : List Str) : Str := text ++ texts.flatMap (asciiTab :: ·)

/-- The same texts, with what is missing at each tab in its place. -/
def completed (text : Str) : List Str → Str
  | [] => text
  | next :: texts => completed (text ++ missingSuffix text ++ next) texts

theorem withTabs_cons (text next : Str) (texts : List Str) :
    withTabs text (next :: texts) = text ++ asciiTab :: withTabs next texts := by
  simp [withTabs]

/-- Nothing that was typed is lost. -/
theorem sublist_completed (text : Str) (texts : List Str) :
    (text ++ texts.flatten).Sublist (completed text texts) := by
  induction texts generalizing text with
  | nil => simp [completed]
  | cons next texts ih =>
    refine List.Sublist.trans ?_ (ih (text ++ missingSuffix text ++ next))
    have hins : (text ++ next).Sublist (text ++ (missingSuffix text ++ next)) :=
      (List.sublist_append_right _ _).append_left text
    simpa only [List.flatten_cons, List.append_assoc] using hins.append_right texts.flatten

theorem command_ne_nil : ∀ entry ∈ telnetCommands.map (·.1), entry ≠ [] := by decide +kernel

/-- **The callback completes.** -/
theorem tabComplete_eq (text : Str) : tabComplete text = text ++ missingSuffix text := by
  have hmatching : (telnetCommands.map (·.1)).filter (fun entry => text <+: entry) = matching text :=
    rfl
  rw [missingSuffix, hmatching, tabComplete, tabAnswer]
  rcases hm : matching text with _ | ⟨entry, _ | ⟨entry', entries⟩⟩
  · -- no command
    simp [suggestions]
  · -- one command
    have hmem : entry ∈ matching text := by simp [hm]
    obtain ⟨hcommand, hprefix⟩ := mem_matching hmem
    have hentry := command_ne_nil entry hcommand
    simp only [List.length_singleton, ne_eq, not_true, false_and, if_false,
      List.getLast?_singleton, Option.getD_some, hentry, not_false_eq_true, if_true]
    exact (List.prefix_iff_eq_append.mp hprefix).symm
  · -- several commands, which are suggested
    have hmem : entry ∈ matching text := by simp [hm]
    have hsugg : suggestions (entry :: entry' :: entries) ≠ [] := by
      simp [suggestions, command_ne_nil entry (mem_matching hmem).1]
    simp [hsugg]

section Loop

variable (os : Os) {conf : Conf} (htab : conf.tabCallback = some telnetTabCallback)

include htab

/-- One tab after the other. The text before the first tab is free of tabs, and
stays so with its completion. -/
theorem processTabLoop_completed (found : Bool) {text : Str} {texts : List Str}
    (htext : asciiTab ∉ text) (htexts : ∀ t ∈ texts, asciiTab ∉ t) {c : Conn}
    (hc : c.session.buffer = withTabs text texts) :
    (processTabLoop os conf found c).2.session.buffer = completed text texts ∧
      (processTabLoop os conf found c).1 = (found || !texts.isEmpty) := by
  induction texts generalizing text found c with
  | nil =>
    have hnone : findElem asciiTab c.session.buffer = none := by
      rw [findElem_eq_none, hc]
      simpa [withTabs] using htext
    rw [processTabLoop_of_none os conf found hnone, hc]
    simp [withTabs, completed]
  | cons next texts ih =>
    rw [withTabs_cons] at hc
    rw [processTabLoop_of_find os conf found hc htext]
    obtain ⟨hbuffer, -⟩ := @completeAt_line os _ htab [] text (withTabs next texts)
      (Or.inl rfl) (c.setBuffer (text ++ withTabs next texts)) rfl
    rw [List.nil_append, List.nil_append, tabComplete_eq] at hbuffer
    have hnext : asciiTab ∉ text ++ missingSuffix text ++ next := by
      rw [List.mem_append, not_or]
      refine ⟨fun hm => ?_, htexts next List.mem_cons_self⟩
      rw [← tabComplete_eq, tabComplete] at hm
      split at hm
      · exact telnetTabCallback.noTab c.world c.session text hm
      · exact htext hm
    obtain ⟨h₁, h₂⟩ := ih true hnext (fun t ht => htexts t (List.mem_cons_of_mem _ ht))
      (c := completeAt os conf text.length (c.setBuffer (text ++ withTabs next texts)))
      (by rw [hbuffer]; simp [withTabs])
    exact ⟨h₁, by rw [h₂]; simp⟩

/-- **Tab completion never destroys typed text.** Texts without tabs, with a tab
between each two: `processTab` leaves the texts, with what the one command that
begins with all the text so far is missing at each tab, and returns true exactly
if there was a tab. -/
theorem processTab_completed {text : Str} {texts : List Str} (htext : asciiTab ∉ text)
    (htexts : ∀ t ∈ texts, asciiTab ∉ t) {c : Conn}
    (hc : c.session.buffer = withTabs text texts) :
    (processTab os conf c).2.session.buffer = completed text texts ∧
      (text ++ texts.flatten).Sublist (processTab os conf c).2.session.buffer ∧
      ((processTab os conf c).1 = true ↔ 1 ≤ texts.length) := by
  obtain ⟨hbuffer, hfound⟩ := processTabLoop_completed os htab false htext htexts hc
  have hbuffer' : (processTab os conf c).2.session.buffer = completed text texts := hbuffer
  have hfound' : (processTab os conf c).1 = (false || !texts.isEmpty) := hfound
  refine ⟨hbuffer', ?_, ?_⟩
  · rw [hbuffer']
    exact sublist_completed text texts
  · rw [hfound']
    cases texts with
    | nil => simp
    | cons next texts => simp

end Loop

/-- `he`, two tabs, a space and a tab. -/
theorem processTab_completed_help :
    (processTab default promptConf
        ⟨{ id := 0, socket := 4, buffer := str "he\t\t \t" }, {}⟩).2.session.buffer = str "help " := by
  have h := @processTab_completed default promptConf rfl (str "he") [[], str " ", []]
    (by decide) (by decide) ⟨{ id := 0, socket := 4, buffer := str "he\t\t \t" }, {}⟩ (by decide)
  exact h.1.trans (by decide +kernel)

end Telnet
end RepoInit
