/-
# What the user of an interactive session sees

The session echoes what it receives, and after keys that change the line it
erases the line and writes prompt and buffer again. After every update the
client's terminal shows the prompt and the line that the keys typed so far make
(`updates_displays`): the line of the editor, whatever the chunks. This takes
keys that come in order, lines that fit in 80 columns, and up-arrows that come
one at a time where there is a history: the echo of an up-arrow moves the cursor
of the client, and the session moves it back once and only if it recalls
(`not_displays_upAlone`).

Key definitions: `Redraws`, `ArrowAlone`, `ArrowsAlone`.
Key theorems: `editBuffer_level`, `update_displays`, `updates_displays`.
-/
import RepoInit.Telnet.Backspace
import RepoInit.Telnet.Interactive
import RepoInit.Telnet.Quit
import RepoInit.Telnet.Screen

namespace RepoInit
namespace Telnet

open Search LineEditor Terminal

/-! ### Keys on the terminal -/

/-- Keys of which only the up-arrows can leave the last line, one line each. -/
theorem feed_encode (width : ℕ) {keys : List (Key Byte)} (h : Typed keys) {t : Screen}
    (hmode : t.mode = .ground) :
    (feed width (encode keys) t).mode = .ground ∧
      (feed width (encode keys) t).below.length ≤ t.below.length + keys.countP isUp := by
  induction keys generalizing t with
  | nil => exact ⟨hmode, Nat.le_refl _⟩
  | cons key keys ih =>
    have hkeys : Typed keys := fun b hb => h b (List.mem_cons_of_mem _ hb)
    rw [encode_cons, feed_append]
    by_cases hup : key = .up
    · subst hup
      obtain ⟨hm, hb⟩ := @feed_up width t
      obtain ⟨hm', hb'⟩ := ih hkeys (t := feed width (encodeKey .up) t) hm
      refine ⟨hm', hb'.trans ?_⟩
      have hcount : (Key.up :: keys).countP isUp = keys.countP isUp + 1 :=
        List.countP_cons_of_pos (p := isUp) rfl
      have hone : (feed width (encodeKey .up) t).below.length ≤ t.below.length + 1 := hb
      omega
    · have hplain := esc_not_mem_encodeKey hup fun b hb => h b (hb ▸ List.mem_cons_self)
      obtain ⟨hm, hb⟩ := @feed_plain width _ hplain _ hmode
      obtain ⟨hm', hb'⟩ := ih hkeys hm
      have hcount : (key :: keys).countP isUp = keys.countP isUp := by
        apply List.countP_cons_of_neg
        cases key <;> simp [isUp] at hup ⊢
      exact ⟨hm', by omega⟩

/-- The keys after which the line is written again. -/
def Redraws (keys : List (Key Byte)) : Prop :=
  .up ∈ keys ∨ (∃ kind, .back kind ∈ keys) ∨ .tab ∈ keys

/-- The other keys are characters and line ends. -/
theorem plain_of_not_redraws {keys : List (Key Byte)} (h : Typed keys) (hno : ¬ Redraws keys) :
    Plain Printable keys := by
  intro key hk
  cases key with
  | char b => exact .inr ⟨b, rfl, h b hk⟩
  | back kind => exact absurd (.inr (.inl ⟨kind, hk⟩)) hno
  | tab => exact absurd (.inr (.inr hk)) hno
  | up => exact absurd (.inl hk) hno
  | enter => exact .inl rfl

/-! ### The passes over the buffer -/

theorem suggestions_printable {commands : List Str} (h : ∀ c ∈ commands, ∀ b ∈ c, Printable b) :
    ∀ b ∈ suggestions commands, Printable b := by
  cases commands with
  | nil => simp [suggestions]
  | cons command commands =>
    intro b hb
    rcases List.mem_append.mp hb with hb | hb
    · exact h command List.mem_cons_self b hb
    · obtain ⟨padded, hp, hb⟩ := List.mem_flatten.mp hb
      obtain ⟨c, hc, rfl⟩ := List.mem_map.mp hp
      rcases List.mem_append.mp hb with hb | hb
      · rw [List.eq_of_mem_replicate hb]
        decide
      · exact h c (List.mem_cons_of_mem _ hc) b hb

/-- The tab callback of the program says printable lines only. -/
theorem tabAnswer_sends {line data : Str} (h : .sendLine data ∈ (tabAnswer line).1) :
    ∀ b ∈ data, Printable b := by
  unfold tabAnswer at h
  split at h
  · have hdata : data = suggestions (matching line) := by simpa using h
    rw [hdata]
    exact suggestions_printable fun c hc => command_bytes c (mem_matching hc).1
  · simp at h

section Edit

variable (os : Os) {conf : Conf} (hconf : Prompts conf) {width : ℕ} {t₀ : Screen}
  (hprompt : ∀ b ∈ conf.promptString, Printable b) (hw : width ≤ 80) (ht₀ : t₀.col < width)

include hconf hprompt hw ht₀

theorem completeAt_level {found : ℕ} {c : Conn} (h : (completeAt os conf found c).Whole)
    (hflat : Flat c.session.buffer) (hlevel : c.Level width t₀) :
    (completeAt os conf found c).Level width t₀ ∧ Flat (completeAt os conf found c).session.buffer := by
  have hcalm : ∀ line data, .sendLine data ∈ (tabAnswer line).1 → Calm width data := by
    intro line data hm
    exact calm_of_plain width fun he => absurd (tabAnswer_sends hm _ he) (by decide)
  unfold completeAt at h ⊢
  rw [hconf.tab] at h ⊢
  dsimp only [telnetTabCallback] at h ⊢
  set line := c.session.buffer.take found
  have hbuffer := (runActs_acted os conf (tabAnswer line).1 c).buffer
  split at h
  · rename_i hne
    rw [if_pos hne, hbuffer]
    have hlevel' := runActs_level os hconf.prompt hprompt hw ht₀ (hcalm line) h hflat hlevel
    refine ⟨hlevel', ?_⟩
    have hplain : (0x1B : Byte) ∉ (tabAnswer line).2 := fun he =>
      absurd (tabAnswer_printable line _ he) (by decide)
    have hrest : erase c.session.buffer 0 found = c.session.buffer.drop found := by
      simp [erase]
    simp only [Conn.setBuffer, hrest]
    exact (hflat.drop found).append hplain
  · rename_i hne
    rw [if_neg hne]
    refine ⟨runActs_level os hconf.prompt hprompt hw ht₀ (hcalm line) h hflat hlevel, ?_⟩
    rw [hbuffer]
    exact hflat

/-- Completing says its lines above the last one. -/
theorem processTabLoop_level {b : Bool} {c : Conn} (h : (processTabLoop os conf b c).2.Whole)
    (hflat : Flat c.session.buffer) (hlevel : c.Level width t₀) :
    (processTabLoop os conf b c).2.Level width t₀ := by
  induction b, c using processTabLoop.induct os conf with
  | case1 b c hnone =>
    rw [processTabLoop_of_none os conf b hnone]
    exact hlevel
  | case2 b c found hfound ih =>
    rw [processTabLoop_of_some os conf b hfound] at h ⊢
    have hwhole := (processTabLoop_acted os conf true
      (completeAt os conf found (c.setBuffer (erase c.session.buffer found 1)))).whole h
    have hflat' : Flat (erase c.session.buffer found 1) := by
      obtain ⟨x, y, hxy, -, rfl⟩ := findElem_eq_some hfound
      rw [hxy] at hflat ⊢
      rw [erase_append_cons]
      exact hflat.remove
    obtain ⟨hlevel', hflat''⟩ := completeAt_level os hconf hprompt hw ht₀
      (c := c.setBuffer (erase c.session.buffer found 1)) hwhole hflat' hlevel
    exact ih h hflat'' hlevel'

end Edit

/-- `processTab` says whether there was a tab. -/
theorem processTabLoop_fst (os : Os) (conf : Conf) (b : Bool) (c : Conn) :
    (processTabLoop os conf b c).1 = (b || decide (asciiTab ∈ c.session.buffer)) := by
  induction b, c using processTabLoop.induct os conf with
  | case1 b c hnone =>
    rw [processTabLoop_of_none os conf b hnone]
    simp [findElem_eq_none.mp hnone]
  | case2 b c found hfound ih =>
    have hmem : asciiTab ∈ c.session.buffer := by
      obtain ⟨x, y, hxy, -, -⟩ := findElem_eq_some hfound
      simp [hxy]
    rw [processTabLoop_of_some os conf b hfound, ih]
    simp [hmem]

theorem processTab_whole (os : Os) (conf : Conf) {c : Conn} {buffer : Str}
    (h : (processTab os conf (c.setBuffer buffer)).2.Whole) : c.Whole := by
  have hsame := (processTabLoop_acted os conf false (c.setBuffer buffer)).whole h
  exact hsame

theorem processBackspace_fst (buffer : Str) :
    (processBackspace buffer).1 = decide (asciiBS ∈ buffer ∨ asciiDEL ∈ buffer) := by
  rw [processBackspace, processBackspaceLoop_served]
  exact Bool.false_or _

theorem processBackspace_of_no_back {keys : List (Key Byte)} {bytes : Str} (hkeys : Typed keys)
    (hbytes : Cut bytes) (h : ∀ kind, .back kind ∉ keys) :
    processBackspace (encode keys ++ bytes) = (false, encode keys ++ bytes) := by
  have hdel : asciiDEL ∉ encode keys ++ bytes := not_mem_backByte true hkeys (h true) hbytes
  have hbs : asciiBS ∉ encode keys ++ bytes := not_mem_backByte false hkeys (h false) hbytes
  have hnone : findBackspace (encode keys ++ bytes) = none := by
    unfold findBackspace
    rw [findElem_eq_none.mpr hdel, findElem_eq_none.mpr hbs]
  exact processBackspaceLoop_of_none false hnone

/-- Taking back in order leaves a flat buffer. -/
theorem flat_processBackspace {keys rest : List (Key Byte)} {bytes : Str} (hkeys : Typed keys)
    (hbytes : Cut bytes) (h : rearrange tabComplete (decide (bytes ≠ [])) keys = some rest) :
    Flat (processBackspace (stripEscapeCharacters (encode keys ++ bytes))).2 := by
  obtain ⟨keys₁, h₁, h⟩ := Option.bind_eq_some_iff.mp h
  obtain ⟨keys₂, h₂, -⟩ := Option.bind_eq_some_iff.mp h
  have hsub : ∀ key ∈ keys₂, key ∈ dropUps keys := fun key hk =>
    (mem_takeBack (by simp) h₁).1 _ ((mem_takeBack (by simp) h₂).1 _ hk)
  have htyped : Typed keys₂ := fun b hb => typed_dropUps hkeys b (hsub _ hb)
  have hno : .up ∉ keys₂ := fun hm => (mem_dropUps.mp (hsub _ hm)).2 rfl
  rw [stripEscapeCharacters_encode hkeys hbytes,
    processBackspace_takeBack (typed_dropUps hkeys) hbytes h₁ h₂]
  exact hbytes.flat.append (esc_not_mem_encode htyped hno)

/-- A cursor key that is sent whole. -/
theorem counterCursor_screen (os : Os) {width : ℕ} {t₀ : Screen} {cursor : Str} {c : Conn}
    (h : (counterCursor os cursor c).2.Whole) :
    (counterCursor os cursor c).1 = true ∧
      (counterCursor os cursor c).2.screen width t₀ = feed width cursor (c.screen width t₀) := by
  have hwhole : (send os cursor c).2.Whole := by
    unfold counterCursor at h
    dsimp only at h
    split at h <;> exact h
  have hall : os.send c.world.n = cursor.length := hwhole _ _ _ List.mem_cons_self
  have hpos : ¬ (send os cursor c).1 < 0 := by
    show ¬ os.send c.world.n < 0
    omega
  have heq : counterCursor os cursor c = (true, { (send os cursor c).2 with
      session := (send os cursor c).2.session.addUpload (send os cursor c).1.toNat }) := by
    unfold counterCursor
    exact if_neg hpos
  rw [heq]
  exact ⟨rfl, send_screen os cursor hwhole⟩

/-! ### Editing -/

section Passes

variable (os : Os) {conf : Conf} (hconf : Prompts conf) {width : ℕ} {t₀ : Screen}
  (hprompt : ∀ b ∈ conf.promptString, Printable b) (hw : width ≤ 80) (ht₀ : t₀.col < width)

include hconf hprompt hw ht₀

/-- The passes behind the history. -/
theorem processTab_level {keys rest : List (Key Byte)} {bytes : Str} (hkeys : Typed keys)
    (hbytes : Cut bytes) (hin : rearrange tabComplete (decide (bytes ≠ [])) keys = some rest) {c : Conn}
    (hc : c.session.buffer = encode keys ++ bytes)
    (h : (processTab os conf (c.setBuffer (processBackspace
        (stripEscapeCharacters c.session.buffer)).2)).2.Whole) (hlevel : c.Level width t₀) :
    (processTab os conf (c.setBuffer (processBackspace
      (stripEscapeCharacters c.session.buffer)).2)).2.Level width t₀ := by
  have hflat := flat_processBackspace hkeys hbytes hin
  rw [← hc] at hflat
  exact processTabLoop_level os hconf hprompt hw ht₀ (b := false)
    (c := c.setBuffer (processBackspace (stripEscapeCharacters c.session.buffer)).2) h hflat hlevel

/-- **After editing the client is on its last line**, if the only up-arrow
recalls. -/
theorem editBuffer_level {c : Conn} {keys : List (Key Byte)} {bytes : Str} (hkeys : Typed keys)
    (hbytes : Cut bytes) (hc : c.session.buffer = encode keys ++ bytes)
    (hhist : ∀ line ∈ c.session.history, ∀ b ∈ line, Printable b)
    (hin : InOrder tabComplete pushHistory c.editor keys (decide (bytes ≠ [])))
    (hups : .up ∈ keys → c.session.history ≠ [] ∧ keys.countP isUp = 1)
    (hbelow : (c.screen width t₀).below.length ≤ keys.countP isUp)
    (h : (editBuffer os conf c).2.Whole) : (editBuffer os conf c).2.Level width t₀ := by
  rw [editBuffer_snd os hconf.prompt] at h ⊢
  unfold InOrder at hin
  by_cases hup : .up ∈ keys
  · obtain ⟨hne, hone⟩ := hups hup
    rw [if_pos ⟨hne, hup⟩] at hin
    obtain rfl : bytes = [] := by simpa using hin.2
    have hfind : (find ansiArrowUp c.session.buffer).isSome := by
      rw [hc]
      exact find_up_isSome hup []
    have hbuffer := (processCommandHistory_recall os hconf.prompt hfind hne).1
    have hprintable : ∀ b ∈ c.session.history.getD (c.session.historyCursor - 1) [], Printable b :=
      getD_all hhist _
    refine processTab_level os hconf hprompt hw ht₀ (charsAll_chars hprintable) (.inl rfl)
      (rearrange_chars _ _) (by simpa using hbuffer) h ?_
    -- the cursor key that is sent back
    have heq : processCommandHistory os conf c =
        counterCursor os ansiArrowDown { c with session := recallUp c.session } := by
      unfold processCommandHistory
      rw [if_pos hconf.prompt, if_pos ⟨hfind, hne⟩]
    have hwhole : (counterCursor os ansiArrowDown { c with session := recallUp c.session }).2.Whole := by
      rw [← heq]
      exact processTab_whole os conf h
    rw [heq]
    unfold Conn.Level
    rw [(counterCursor_screen os hwhole).2]
    have hdown := (@feed_down width (c.screen width t₀)).2
    apply List.eq_nil_of_length_eq_zero
    refine hdown.trans ?_
    omega
  · rw [if_neg fun hm => hup hm.2] at hin
    obtain ⟨rest, hrest⟩ := Option.isSome_iff_exists.mp hin.2
    have hcount : keys.countP isUp = 0 := by
      rw [List.countP_eq_zero]
      intro key hk hisUp
      cases key <;> first | exact hup hk | simp [isUp] at hisUp
    have hidle := processCommandHistory_idle os conf hkeys hbytes hc fun hm => hup hm.2
    rw [hidle] at h ⊢
    refine processTab_level os hconf hprompt hw ht₀ hkeys hbytes hrest hc h ?_
    exact List.eq_nil_of_length_eq_zero (by omega)

omit hprompt hw ht₀ in
/-- Keys that redraw have the line written again. -/
theorem editBuffer_fst {c : Conn} {keys : List (Key Byte)} {bytes : Str} (hkeys : Typed keys)
    (hbytes : Cut bytes) (hc : c.session.buffer = encode keys ++ bytes)
    (hups : .up ∈ keys → c.session.history ≠ []) (hredraws : Redraws keys)
    (h : (editBuffer os conf c).2.Whole) : (editBuffer os conf c).1 = true := by
  have hfst : (editBuffer os conf c).1 = ((processCommandHistory os conf c).1 ||
      (processBackspace (stripEscapeCharacters
        (processCommandHistory os conf c).2.session.buffer)).1 ||
      (processTab os conf ((processCommandHistory os conf c).2.setBuffer
        (processBackspace (stripEscapeCharacters
          (processCommandHistory os conf c).2.session.buffer)).2)).1) := by
    unfold editBuffer
    rw [if_pos hconf.prompt]
    rfl
  by_cases hup : .up ∈ keys
  · have hfind : (find ansiArrowUp c.session.buffer).isSome := by
      rw [hc]
      exact find_up_isSome hup bytes
    have heq : processCommandHistory os conf c =
        counterCursor os ansiArrowDown { c with session := recallUp c.session } := by
      unfold processCommandHistory
      rw [if_pos hconf.prompt, if_pos ⟨hfind, hups hup⟩]
    have hwhole : (counterCursor os ansiArrowDown { c with session := recallUp c.session }).2.Whole := by
      rw [← heq]
      rw [editBuffer_snd os hconf.prompt] at h
      exact processTab_whole os conf h
    rw [hfst, heq, (@counterCursor_screen os 80 {} _ _ hwhole).1]
    rfl
  · have hidle := processCommandHistory_idle os conf hkeys hbytes hc fun hm => hup hm.2
    have hno : dropUps keys = keys := by
      rw [dropUps, List.filter_eq_self]
      intro key hk
      cases key <;> first | exact absurd hk hup | rfl
    rw [hfst, hidle, hc, stripEscapeCharacters_encode hkeys hbytes, hno]
    by_cases hback : ∃ kind, .back kind ∈ keys
    · obtain ⟨kind, hk⟩ := hback
      have hmem : backByte kind ∈ encode keys ++ bytes :=
        List.mem_append_left _ (mem_encode.mpr ⟨_, hk, List.mem_singleton_self _⟩)
      have hfound : (processBackspace (encode keys ++ bytes)).1 = true := by
        rw [processBackspace_fst, decide_eq_true_eq]
        cases kind with
        | true => exact .inr hmem
        | false => exact .inl hmem
      rw [hfound]
      simp
    · have htab : .tab ∈ keys := (hredraws.resolve_left hup).resolve_left hback
      have hmem : asciiTab ∈ encode keys ++ bytes :=
        List.mem_append_left _ (mem_encode.mpr ⟨_, htab, List.mem_singleton_self _⟩)
      have hsame := processBackspace_of_no_back hkeys hbytes fun kind hm => hback ⟨kind, hm⟩
      have hfound : (processTab os conf (c.setBuffer (encode keys ++ bytes))).1 = true := by
        rw [processTab, processTabLoop_fst]
        simp [Conn.setBuffer, hmem]
      rw [hsame, hfound]
      simp

omit hconf hprompt hw ht₀ in
/-- Characters and line ends are left alone. -/
theorem editBuffer_plain {c : Conn} {keys : List (Key Byte)} {bytes : Str}
    (hplain : Plain Printable keys) (hbytes : Cut bytes) (hc : c.session.buffer = encode keys ++ bytes) :
    editBuffer os conf c = (false, c) := by
  have hkeys : Typed keys := by
    intro b hb
    rcases hplain _ hb with h | ⟨a, ha, hp⟩
    · cases h
    · rwa [Key.char.inj ha]
  have hno : ∀ key ∈ keys, key ≠ .up ∧ key ≠ .tab ∧ ∀ kind, key ≠ .back kind := by
    intro key hk
    rcases hplain key hk with rfl | ⟨a, rfl, -⟩ <;> simp
  have hup : .up ∉ keys := fun hm => (hno _ hm).1 rfl
  have hnone := find_cursor_none hkeys hup hbytes
  have hhistory : processCommandHistory os conf c = (false, c) := by
    have hfind : ∀ last, find [0x1B, 0x5B, last] c.session.buffer = none := by
      rw [hc]
      exact hnone
    unfold processCommandHistory
    split
    · simp [ansiArrowUp, ansiArrowDown, ansiArrowLeft, ansiArrowRight, hfind]
    · rfl
  have hdrop : dropUps keys = keys := by
    rw [dropUps, List.filter_eq_self]
    intro key hk
    rcases hplain key hk with rfl | ⟨a, rfl, -⟩ <;> rfl
  have hstrip : stripEscapeCharacters c.session.buffer = c.session.buffer := by
    rw [hc, stripEscapeCharacters_encode hkeys hbytes, hdrop]
  have hback : processBackspace c.session.buffer = (false, c.session.buffer) := by
    rw [hc]
    exact processBackspace_of_no_back hkeys hbytes fun kind hm => (hno _ hm).2.2 kind rfl
  have htab : processTab os conf c = (false, c) := by
    have hmem : asciiTab ∉ c.session.buffer := by
      rw [hc]
      refine not_mem_buffer (by decide) (by decide) hkeys ?_ hbytes
      have htab : ∀ key ∈ specialKeys, asciiTab ∈ encodeKey key → key = .tab := by decide
      intro key hk hm hkey
      exact (hno _ hkey).2.1 (htab key hk hm)
    exact processTabLoop_of_none os conf false (findElem_eq_none.mpr hmem)
  unfold editBuffer
  split
  · have hset : ∀ c' : Conn, c'.setBuffer c'.session.buffer = c' := fun c' => rfl
    simp only [hhistory, hstrip, hset, hback, htab, Bool.or_false]
  · rfl

end Passes

/-! ### One update -/

/-- Without a line end they are characters. -/
theorem chars_of_plain {keys : List (Key Byte)} (h : Plain Printable keys) (hno : .enter ∉ keys) :
    ∃ text : Str, keys = text.map .char ∧ ∀ b ∈ text, Printable b := by
  induction keys with
  | nil => exact ⟨[], rfl, by simp⟩
  | cons key keys ih =>
    obtain ⟨text, rfl, htext⟩ := ih (fun k hk => h k (List.mem_cons_of_mem _ hk))
      fun hm => hno (List.mem_cons_of_mem _ hm)
    rcases h key List.mem_cons_self with rfl | ⟨b, rfl, hb⟩
    · exact absurd List.mem_cons_self hno
    · exact ⟨b :: text, rfl, by simpa [hb] using htext⟩

/-- The lines that characters and line ends make. -/
theorem typeKeys_plain {keys : List (Key Byte)} (h : Plain Printable keys) {e : Editor Byte}
    (he : ∀ b ∈ e.text, Printable b) :
    (∀ b ∈ (typeKeys e keys).text, Printable b) ∧
      ∃ ls, (typeKeys e keys).lines = e.lines ++ ls ∧ (∀ line ∈ ls, ∀ b ∈ line, Printable b) ∧
        (.enter ∈ keys ↔ ls ≠ []) := by
  induction keys generalizing e with
  | nil => exact ⟨he, [], by simp [typeKeys, run], by simp, by simp⟩
  | cons key keys ih =>
    have hkeys : Plain Printable keys := fun k hk => h k (List.mem_cons_of_mem _ hk)
    rcases h key List.mem_cons_self with rfl | ⟨b, rfl, hb⟩
    · obtain ⟨htext, ls, hlines, hall, -⟩ :=
        ih hkeys (e := press tabComplete pushHistory e .enter) (by simp [press])
      refine ⟨htext, e.text :: ls, hlines.trans (by simp [press]), ?_, by simp⟩
      intro line hm
      rcases List.mem_cons.mp hm with rfl | hm
      · exact he
      · exact hall line hm
    · obtain ⟨htext, ls, hlines, hall, hne⟩ :=
        ih hkeys (e := press tabComplete pushHistory e (.char b)) (forall_mem_concat he hb)
      exact ⟨htext, ls, hlines, hall, by simpa using hne⟩

/-- Characters and line ends are cut into printable lines and a printable
rest. -/
theorem takeLines_split (os : Os) (conf : Conf) {c : Conn} {keys : List (Key Byte)}
    (hplain : Plain Printable keys) {bytes : Str} (hbytes : Cut bytes)
    (hc : c.session.buffer = encode keys ++ bytes) :
    ∃ ls, takeLines os conf c =
        processLines os conf ls (c.setBuffer ((typeKeys c.editor keys).text ++ bytes)) ∧
      (∀ b ∈ (typeKeys c.editor keys).text, Printable b) ∧
      (∀ line ∈ ls, ∀ b ∈ line, Printable b) ∧ (.enter ∈ keys ↔ ls ≠ []) := by
  have hempty : ∀ b ∈ c.editor.text, Printable b := by simp [Conn.editor]
  obtain ⟨ls, hsplit, hlines, -, -⟩ := split_plain hplain hbytes hempty
  obtain ⟨htext, ls', hlines', hall, hne⟩ := typeKeys_plain hplain hempty
  obtain rfl : ls = ls' := List.append_cancel_left (hlines.symm.trans hlines')
  have hbuffer : Framing.split crlf c.session.buffer = (ls, (typeKeys c.editor keys).text ++ bytes) := by
    rw [hc]
    exact hsplit
  refine ⟨ls, ?_, htext, hall, hne⟩
  unfold takeLines
  rw [getCompleteLines_eq, hbuffer]

/-- What was typed has no byte that is taken for a negotiation sequence. -/
theorem takeKeys_typed (os : Os) (conf : Conf) {data : Str} {c : Conn}
    (hkeys : Typed (decode (c.session.buffer ++ data)).1) :
    takeKeys os conf data c =
        editBuffer os conf ((echoBack os data (noteReceived os data c)).setBuffer
          (c.session.buffer ++ data)) ∧
      echoBack os data (noteReceived os data c) = sendCounted os data (noteReceived os data c) := by
  have hno : ∀ b, ¬ Printable b → b ∉ ([0x0D, 0x1B, 0x5B] : Str) →
      (∀ key ∈ specialKeys, b ∉ encodeKey key) → b ∉ data := by
    intro b hb hb' hspecial hm
    refine not_mem_buffer hb hb' hkeys (fun key hk hm => absurd hm (hspecial key hk))
      (cut_decode (c.session.buffer ++ data)) ?_
    rw [encode_decode]
    exact List.mem_append_right _ hm
  have hnull : asciiNull ∉ data := hno asciiNull (by decide) (by decide) (by decide)
  have hnvt : asciiNBSP ∉ c.session.buffer ++ data := by
    rw [← encode_decode (c.session.buffer ++ data)]
    exact not_mem_buffer (by decide) (by decide) hkeys
      (fun key hk hm => absurd hm ((by decide : ∀ key ∈ specialKeys, asciiNBSP ∉ encodeKey key) key hk))
      (cut_decode _)
  constructor
  · have hb : (echoBack os data (noteReceived os data c)).session.buffer = c.session.buffer :=
      (echoBack_acted os data (noteReceived os data c)).buffer
    unfold takeKeys
    dsimp only
    rw [hb, replaceNull_of_not_mem hnull, stripNVT_of_not_mem hnvt]
  · have hhead : data.head? ≠ some asciiNBSP := fun hh =>
      hnvt (List.mem_append_right _ (List.mem_of_mem_head? hh))
    unfold echoBack
    exact if_neg hhead

/-- The up-arrow that was received is the only one, and there is a history. -/
def ArrowAlone (c : Conn) (data : Str) : Prop :=
  .up ∈ (decode (c.session.buffer ++ data)).1 →
    c.session.history ≠ [] ∧ (decode (c.session.buffer ++ data)).1.countP isUp = 1

instance (c : Conn) (data : Str) : Decidable (ArrowAlone c data) :=
  inferInstanceAs (Decidable (_ → _))

/-- The echo is the keys that are new, and the first bytes of another. -/
theorem feed_echo {width : ℕ} {shown text cut data : Str} {t : Screen}
    (htext : ∀ b ∈ text, Printable b) (hcut : Cut cut) (h : Displays width (shown ++ text) cut t) :
    ∃ new t', (decode (text ++ cut ++ data)).1 = text.map .char ++ new ∧
      Shows (shown ++ text) t' ∧
      feed width data t = feed width (encode new ++ (decode (text ++ cut ++ data)).2) t' := by
  obtain ⟨t', hshows, rfl⟩ := h
  have hdec : decode (text ++ cut ++ data) = (text.map .char ++ (data.foldl decodeByte ([], cut)).1,
      (data.foldl decodeByte ([], cut)).2) := by
    rw [decode_append, decode_text htext hcut]
    exact foldl_decodeByte_shift _ _ _
  have hjoin := encode_decode (text ++ cut ++ data)
  rw [hdec] at hjoin ⊢
  refine ⟨_, t', rfl, hshows, ?_⟩
  rw [encode_append, encode_chars, List.append_assoc, List.append_assoc] at hjoin
  rw [← feed_append, ← List.append_cancel_left hjoin]

/-- No more lines are below than up-arrows came. -/
theorem echo_below {width : ℕ} {shown text cut data : Str} {t : Screen}
    (htext : ∀ b ∈ text, Printable b) (hcut : Cut cut) (h : Displays width (shown ++ text) cut t)
    (hkeys : Typed (decode (text ++ cut ++ data)).1) :
    (feed width data t).below.length ≤ (decode (text ++ cut ++ data)).1.countP isUp := by
  obtain ⟨new, t', hnew, hshows, hfeed⟩ := @feed_echo width shown text cut data t htext hcut h
  have hnewTyped : Typed new := by
    intro b hb
    apply hkeys b
    rw [hnew]
    exact List.mem_append_right _ hb
  obtain ⟨hmode, hbelow⟩ := feed_encode width hnewTyped hshows.mode
  have hlast := (cut_decode (text ++ cut ++ data)).flat.below width hmode
  have hcount : (decode (text ++ cut ++ data)).1.countP isUp = new.countP isUp := by
    have hchars : (text.map Key.char).countP isUp = 0 := by
      rw [List.countP_map, List.countP_eq_zero]
      intro b _
      simp [isUp]
    rw [hnew, List.countP_append, hchars, Nat.zero_add]
  rw [hshows.below, List.length_nil, Nat.zero_add] at hbelow
  rw [hfeed, feed_append, hcount]
  exact hlast.trans hbelow

/-- The echo of characters is written behind the text. -/
theorem echo_displays {width : ℕ} {shown text cut data : Str} {t : Screen} (c : Conn)
    (htext : ∀ b ∈ text, Printable b) (hcut : Cut cut) (h : Displays width (shown ++ text) cut t)
    (hplain : Plain Printable (decode (text ++ cut ++ data)).1)
    (henter : .enter ∉ (decode (text ++ cut ++ data)).1)
    (hfits : (shown ++ (typeKeys c.editor (decode (text ++ cut ++ data)).1).text).length < width) :
    Displays width (shown ++ (typeKeys c.editor (decode (text ++ cut ++ data)).1).text)
      (decode (text ++ cut ++ data)).2 (feed width data t) := by
  obtain ⟨new, t', hnew, hshows, hfeed⟩ := @feed_echo width shown text cut data t htext hcut h
  have hmem : ∀ key ∈ new, key ∈ (decode (text ++ cut ++ data)).1 := fun key hk => by
    rw [hnew]
    exact List.mem_append_right _ hk
  obtain ⟨typed, rfl, htyped⟩ := chars_of_plain (fun key hk => hplain key (hmem key hk))
    fun hm => henter (hmem _ hm)
  have hline : (typeKeys c.editor (decode (text ++ cut ++ data)).1).text = text ++ typed := by
    rw [hnew, ← List.map_append, typeKeys, run_chars]
    rfl
  rw [hline, ← List.append_assoc, List.length_append] at hfits
  rw [hline, ← List.append_assoc, hfeed, encode_chars, feed_append]
  exact ⟨_, hshows.append (fun b hb => (htyped b hb).printing) hfits, rfl⟩

section Update

variable (os : Os) {conf : Conf} (hconf : Prompts conf) (hcb : conf.newLineCallBack.isSome)
  {width : ℕ} {t₀ : Screen} (hspeaks : SpeaksCalmly width conf)
  (hprompt : ∀ b ∈ conf.promptString, Printable b) (hw : width ≤ 80) (ht₀ : t₀.col < width)

include hconf hcb hspeaks hprompt hw ht₀

/-- The lines leave the buffer, with the client at its last line. -/
theorem takeLines_displays {c : Conn} {keys : List (Key Byte)} (hplain : Plain Printable keys)
    {bytes : Str} (hbytes : Cut bytes) (hc : c.session.buffer = encode keys ++ bytes)
    (hfits : (conf.promptString ++ (typeKeys c.editor keys).text).length < width)
    (h : (takeLines os conf c).Whole) (hlevel : c.Level width t₀) :
    (takeLines os conf c).Level width t₀ ∧
      (.enter ∈ keys → Displays width (conf.promptString ++ (typeKeys c.editor keys).text) bytes
        ((takeLines os conf c).screen width t₀)) ∧
      (.enter ∉ keys → (takeLines os conf c).screen width t₀ = c.screen width t₀) := by
  obtain ⟨ls, heq, htext, hlines, hne⟩ := takeLines_split os conf hplain hbytes hc
  rw [heq] at h ⊢
  by_cases hnil : ls = []
  · have hsame : processLines os conf ls (c.setBuffer ((typeKeys c.editor keys).text ++ bytes)) =
        c.setBuffer ((typeKeys c.editor keys).text ++ bytes) := by
      obtain ⟨callback, hcb⟩ := Option.isSome_iff_exists.mp hcb
      rw [processLines_some os conf callback hcb, hnil]
      rfl
    rw [hsame]
    exact ⟨hlevel, fun hm => absurd hnil (hne.mp hm), fun _ => rfl⟩
  · have hshown := processLines_displays os hconf.prompt hprompt hw ht₀ hcb hspeaks hnil hlines h hbytes
      (c := c.setBuffer ((typeKeys c.editor keys).text ++ bytes)) rfl htext hfits hlevel
    exact ⟨hshown.below hbytes, fun _ => hshown, fun hm => absurd (hne.mpr hnil) hm⟩

/-- **After an update the client sees the prompt and the line** that the keys
make of what was there. -/
theorem update_displays {data : Str} (hd : data ≠ []) {c : Conn} {text cut : Str}
    (hbuffer : c.session.buffer = text ++ cut) (htext : ∀ b ∈ text, Printable b) (hcut : Cut cut)
    (hshown : Displays width (conf.promptString ++ text) cut (c.screen width t₀))
    (hkeys : Typed (decode (c.session.buffer ++ data)).1)
    (hhist : ∀ line ∈ c.session.history, ∀ b ∈ line, Printable b) (hin : StepInOrder c data)
    (hups : ArrowAlone c data)
    (hfits : (conf.promptString ++
      (typeKeys c.editor (decode (c.session.buffer ++ data)).1).text).length < width)
    (h : (TelnetSession.update os conf (.bytes data) c).Whole) :
    Displays width
      (conf.promptString ++ (typeKeys c.editor (decode (c.session.buffer ++ data)).1).text)
      (decode (c.session.buffer ++ data)).2
      ((TelnetSession.update os conf (.bytes data) c).screen width t₀) := by
  set c₀ : Conn :=
    { session := resetStats c.session
      world := c.world.record (.recv c.session.id c.session.socket (.bytes data)) } with hc₀
  have hupdate : TelnetSession.update os conf (.bytes data) c = receive os conf data c₀ := by
    simp [TelnetSession.update, hd, hc₀]
  obtain ⟨htake, hecho⟩ := takeKeys_typed os conf (c := c₀) hkeys
  rw [hecho] at htake
  set keys := (decode (c.session.buffer ++ data)).1 with hkeysDef
  set bytes := (decode (c.session.buffer ++ data)).2 with hbytesDef
  have hbytes : Cut bytes := cut_decode _
  set c₁ := sendCounted os data (noteReceived os data c₀) with hc₁
  set c₂ := c₁.setBuffer (c.session.buffer ++ data) with hc₂
  have htake₂ : takeKeys os conf data c₀ = editBuffer os conf c₂ := htake
  have hacted : Acted (noteReceived os data c₀) c₁ := sendCounted_acted os data _
  have hjoin : c₂.session.buffer = encode keys ++ bytes := (encode_decode _).symm
  have heditor : c₂.editor = c.editor := hacted.editor
  have hhistory : c₂.session.history = c.session.history := hacted.history
  -- what went out is what is looked at
  rw [hupdate] at h ⊢
  have hwhole₄ : (takeLines os conf (editBuffer os conf c₂).2).Whole := by
    have := (receive_acted os conf data c₀).whole h
    rwa [htake₂] at this
  have hwhole₃ : (editBuffer os conf c₂).2.Whole := (takeLines_worked os conf _).whole hwhole₄
  have hwhole₁ : c₁.Whole := (editBuffer_worked os conf c₂).whole hwhole₃
  have hscreen : c₂.screen width t₀ = feed width data (c.screen width t₀) :=
    sendCounted_screen os data hwhole₁
  have hbelow : (c₂.screen width t₀).below.length ≤ keys.countP isUp := by
    rw [hscreen, hkeysDef, hbuffer]
    exact echo_below htext hcut hshown (by rw [← hbuffer]; exact hkeys)
  have hin₂ : InOrder tabComplete pushHistory c₂.editor keys (decide (bytes ≠ [])) := by
    rw [heditor]
    exact hin
  have hlevel := editBuffer_level os hconf hprompt hw ht₀ hkeys hbytes hjoin
    (by rw [hhistory]; exact hhist) hin₂ (by rw [hhistory]; exact hups) hbelow hwhole₃
  obtain ⟨rest, hplain, hedit, hrun⟩ := editBuffer_run os hconf hkeys hbytes hjoin
    (by rw [hhistory]; exact hhist) hin₂
  rw [heditor] at hrun
  have htaken := takeLines_displays os hconf hcb hspeaks hprompt hw ht₀ hplain hbytes hedit
    (by rw [hrun]; exact hfits) hwhole₄ hlevel
  obtain ⟨ls, -, hline, -, -⟩ := takeLines_split os conf hplain hbytes hedit
  rw [hrun] at hline htaken
  unfold receive at h ⊢
  rw [htake₂] at h ⊢
  dsimp only at h ⊢
  by_cases hredraws : Redraws keys
  · have hflag := editBuffer_fst os hconf hkeys hbytes hjoin
      (fun hm => by rw [hhistory]; exact (hups hm).1) hredraws hwhole₃
    rw [if_pos ⟨hflag, hconf.prompt⟩] at h ⊢
    have hrest := (takeLines_editor os hcb hplain hbytes hedit).1
    rw [hrun] at hrest
    exact redraw_displays os hprompt hw ht₀ h hrest hline hfits htaken.1
  · have hplainKeys := plain_of_not_redraws hkeys hredraws
    rw [@editBuffer_plain os conf _ _ _ hplainKeys hbytes hjoin] at h hwhole₄ hlevel ⊢
    rw [if_neg (by simp)]
    have hleft := takeLines_displays os hconf hcb hspeaks hprompt hw ht₀ hplainKeys hbytes hjoin
      (by rw [heditor]; exact hfits) hwhole₄ hlevel
    rw [heditor] at hleft
    by_cases henter : .enter ∈ keys
    · exact hleft.2.1 henter
    · rw [hleft.2.2 henter, hscreen]
      rw [hkeysDef, hbytesDef, hbuffer]
      exact echo_displays c htext hcut hshown (by rw [← hbuffer]; exact hplainKeys)
        (by rw [← hbuffer]; exact henter) (by rw [← hbuffer]; exact hfits)

end Update

/-! ### The callback of the program -/

theorem statusLine_plain {service : Str × Bool} (h : (0x1B : Byte) ∉ service.1) :
    (0x1B : Byte) ∉ statusLine service := by
  have hstate : ∀ b : Bool, (0x1B : Byte) ∉
      padLeft 0x2E VAL_WIDTH (if b then str " OK" else str " Not Active") ++ str " " := by decide
  have hname : (0x1B : Byte) ∉ padRight 0x2E KEY_WIDTH (service.1 ++ str " ") := by
    unfold padRight
    rw [List.mem_append, List.mem_append, List.mem_replicate]
    rintro ((hm | hm) | ⟨-, hm⟩)
    · exact h hm
    · exact absurd hm (by decide)
    · exact absurd hm (by decide)
  rw [statusLine, List.append_assoc, List.mem_append]
  exact fun hm => hm.elim hname (hstate service.2)

/-- The text of a line that is said. -/
def Act.said : Act → Str
  | .sendLine data => data
  | _ => []

/-- Only `clear` says an escape sequence. -/
theorem switchCases_calm (width : ℕ) {build : Build} {vCheckFlag : CheckFlags}
    (hversion : (0x1B : Byte) ∉ build.projectFullVersionString)
    (hnames : ∀ service ∈ vCheckFlag, (0x1B : Byte) ∉ service.1) :
    ∀ case ∈ switchCases build vCheckFlag, ∀ act ∈ case.2, Calm width act.said := by
  intro case hcase act hm
  have hfixed : ∀ acts : List Act, (∀ act ∈ acts, (0x1B : Byte) ∉ act.said) → act ∈ acts →
      Calm width act.said := fun acts h hm => calm_of_plain width (h act hm)
  simp only [switchCases, List.mem_cons, List.not_mem_nil, or_false] at hcase
  rcases hcase with rfl | rfl | rfl | rfl | rfl | rfl | rfl | rfl | rfl | rfl | rfl | rfl
  · exact hfixed _ (by decide) hm
  · exact hfixed _ (by decide +kernel) hm
  · refine hfixed _ ?_ hm
    intro act hm
    simp only [List.mem_cons, List.not_mem_nil, or_false] at hm
    rcases hm with rfl | rfl
    · decide
    · simp [Act.said]
  · exact hfixed _ (by decide) hm
  · exact hfixed _ (by decide) hm
  · exact hfixed _ (by decide) hm
  · exact hfixed _ (by decide) hm
  · exact hfixed _ (by decide) hm
  · rw [List.mem_singleton.mp hm]
    exact calm_of_plain width hversion
  · rw [List.mem_singleton.mp hm]
    exact calm_clear width
  · obtain ⟨service, hservice, rfl⟩ := List.mem_map.mp hm
    exact calm_of_plain width (statusLine_plain (hnames service hservice))
  · exact hfixed _ (by decide) hm

/-- **The message callback of the program leaves the terminal at its last
line.** -/
theorem speaksCalmly_telnetMessageCallback (width : ℕ) {build : Build} {conf : Conf}
    {vCheckFlag : World → CheckFlags}
    (hconf : conf.newLineCallBack =
      some fun w _ line => telnetMessageCallback build (vCheckFlag w) line)
    (hversion : (0x1B : Byte) ∉ build.projectFullVersionString)
    (hnames : ∀ w, ∀ service ∈ vCheckFlag w, (0x1B : Byte) ∉ service.1) : SpeaksCalmly width conf := by
  rintro callback hcb w s line hline
  obtain rfl : callback = fun w _ line => telnetMessageCallback build (vCheckFlag w) line :=
    Option.some.inj (hcb.symm.trans hconf)
  have hecho : Calm width line := calm_of_plain width fun hm => absurd (hline _ hm) (by decide)
  have hunknown : Calm width unknownCommand.said := calm_of_plain width (by decide)
  have hcases := switchCases_calm width hversion (hnames w)
  show (∃ data, .sendLine data ∈ (telnetMessageCallback build (vCheckFlag w) line).1) ∧
    ∀ data, .sendLine data ∈ (telnetMessageCallback build (vCheckFlag w) line).1 → Calm width data
  unfold telnetMessageCallback
  split
  · refine ⟨⟨line, List.mem_singleton_self _⟩, fun data hm => ?_⟩
    rw [Act.sendLine.inj (List.mem_singleton.mp hm)]
    exact hecho
  · split
    · rename_i case hfind
      refine ⟨⟨line, List.mem_cons_self⟩, fun data hm => ?_⟩
      rcases List.mem_cons.mp hm with he | hm
      · rw [Act.sendLine.inj he]
        exact hecho
      · exact hcases case (List.mem_of_find?_eq_some hfind) _ hm
    · refine ⟨⟨line, List.mem_cons_self⟩, fun data hm => ?_⟩
      simp only [List.mem_cons, List.not_mem_nil, or_false] at hm
      rcases hm with he | he
      · rw [Act.sendLine.inj he]
        exact hecho
      · rw [Act.sendLine.inj he]
        exact hunknown

/-! ### Runs -/

/-- Every update of a run finds an up-arrow alone. -/
def ArrowsAlone (os : Os) (conf : Conf) : List Str → Conn → Prop
  | [], _ => True
  | data :: chunks, c =>
    ArrowAlone c data ∧ ArrowsAlone os conf chunks (TelnetSession.update os conf (.bytes data) c)

instance decidableArrowsAlone (os : Os) (conf : Conf) :
    (chunks : List Str) → (c : Conn) → Decidable (ArrowsAlone os conf chunks c)
  | [], _ => inferInstanceAs (Decidable True)
  | data :: chunks, c =>
    have := decidableArrowsAlone os conf chunks (TelnetSession.update os conf (.bytes data) c)
    inferInstanceAs (Decidable (_ ∧ _))

/-- The keys make lines that fit behind the prompt, after every chunk. -/
def LinesFit (width : ℕ) (conf : Conf) (e : Editor Byte) (chunks : List Str) : Prop :=
  ∀ pre ∈ chunks.inits,
    (conf.promptString ++ (typeKeys e (decode pre.flatten).1).text).length < width

instance (width : ℕ) (conf : Conf) (e : Editor Byte) (chunks : List Str) :
    Decidable (LinesFit width conf e chunks) :=
  inferInstanceAs (Decidable (∀ pre ∈ _, _))

theorem update_whole (os : Os) (conf : Conf) {answer : Recv} {c : Conn}
    (h : (TelnetSession.update os conf answer c).Whole) : c.Whole := by
  obtain ⟨es, hupdated⟩ := update_updated os conf answer c
  intro fd data sent hm
  refine h fd data sent ?_
  rw [hupdated.trace, hupdated.id]
  exact List.mem_append_right _ (List.mem_cons_of_mem _ hm)

theorem updates_whole (os : Os) (conf : Conf) {chunks : List Str} {c : Conn}
    (h : (updates os conf chunks c).Whole) : c.Whole := by
  induction chunks generalizing c with
  | nil => exact h
  | cons data chunks ih => exact update_whole os conf (ih h)

section Run

variable (os : Os) {conf : Conf} (hconf : Prompts conf) (hcb : conf.newLineCallBack.isSome)
  {width : ℕ} {t₀ : Screen} (hspeaks : SpeaksCalmly width conf)
  (hprompt : ∀ b ∈ conf.promptString, Printable b) (hw : width ≤ 80) (ht₀ : t₀.col < width)

include hconf hcb hspeaks hprompt hw ht₀

/-- A chunk more, from where the session follows the editor. -/
theorem Follows.displays {c₀ c : Conn} {s : Str} (h : Follows c₀ s c) (h₀ : c₀.typing.All Printable)
    {data : Str} (hd : data ≠ []) (hs : Typed (decode (s ++ data)).1) (hin : StepInOrder c data)
    (hups : ArrowAlone c data)
    (hfits : (conf.promptString ++ (typeKeys c₀.typing (decode (s ++ data)).1).text).length < width)
    (hshown : Displays width (conf.promptString ++ (typeKeys c₀.typing (decode s).1).text)
      (decode s).2 (c.screen width t₀))
    (hwhole : (TelnetSession.update os conf (.bytes data) c).Whole) :
    Displays width (conf.promptString ++ (typeKeys c₀.typing (decode (s ++ data)).1).text)
      (decode (s ++ data)).2 ((TelnetSession.update os conf (.bytes data) c).screen width t₀) := by
  have hs₀ := typed_decode_left hs
  have hall := typeKeys_printable h₀ hs₀
  obtain ⟨hdec₁, hdec₂⟩ := h.decode_buffer h₀ hs₀ data
  have hdec : decode (s ++ data) = ((decode s).1 ++ (data.foldl decodeByte ([], (decode s).2)).1,
      (data.foldl decodeByte ([], (decode s).2)).2) := by
    rw [decode_append]
    exact foldl_decodeByte_shift _ _ _
  have htyped : Typed (decode (c.session.buffer ++ data)).1 := by
    rw [hdec₁]
    refine (charsAll_chars hall.1).append fun b hb => hs b ?_
    rw [hdec]
    exact List.mem_append_right _ hb
  have hhist : ∀ line ∈ c.session.history, ∀ b ∈ line, Printable b := by
    have hsame : c.session.history = (typeKeys c₀.typing (decode s).1).history :=
      congrArg Editor.history h.editor
    rw [hsame]
    exact hall.2
  have hrest : (decode (c.session.buffer ++ data)).2 = (decode (s ++ data)).2 := by
    rw [hdec₂, hdec]
  -- both say what the buffer is after the update
  have hline : (typeKeys c.editor (decode (c.session.buffer ++ data)).1).text =
      (typeKeys c₀.typing (decode (s ++ data)).1).text := by
    have hbuffer := (update_editor os hconf hcb hd htyped hhist hin).1
    rw [(h.update h₀ os hconf hcb hd hs hin).buffer, hrest] at hbuffer
    exact (List.append_cancel_right hbuffer).symm
  have hnext := update_displays os hconf hcb hspeaks hprompt hw ht₀ hd h.buffer hall.1 (cut_decode s)
    hshown htyped hhist hin hups (by rw [hline]; exact hfits) hwhole
  rwa [hline, hrest] at hnext

theorem follows_displays {c₀ : Conn} (h₀ : c₀.typing.All Printable) {chunks : List Str}
    (hc : ∀ data ∈ chunks, data ≠ []) {s : Str} (hs : Typed (decode (s ++ chunks.flatten)).1) {c : Conn}
    (h : Follows c₀ s c) (hin : KeysInOrder os conf chunks c) (hups : ArrowsAlone os conf chunks c)
    (hfits : ∀ pre, pre <+: chunks →
      (conf.promptString ++ (typeKeys c₀.typing (decode (s ++ pre.flatten)).1).text).length < width)
    (hshown : Displays width (conf.promptString ++ (typeKeys c₀.typing (decode s).1).text)
      (decode s).2 (c.screen width t₀))
    (hwhole : (updates os conf chunks c).Whole) :
    Displays width
      (conf.promptString ++ (typeKeys c₀.typing (decode (s ++ chunks.flatten)).1).text)
      (decode (s ++ chunks.flatten)).2 ((updates os conf chunks c).screen width t₀) := by
  induction chunks generalizing s c with
  | nil => simpa [updates] using hshown
  | cons data chunks ih =>
    rw [List.flatten_cons, ← List.append_assoc] at hs ⊢
    have hs₁ := typed_decode_left hs
    have hd := hc data List.mem_cons_self
    have hfirst : (conf.promptString ++
        (typeKeys c₀.typing (decode (s ++ data)).1).text).length < width := by
      have := hfits [data] (by simp)
      rwa [List.flatten_singleton] at this
    have hstep := h.update h₀ os hconf hcb hd hs₁ hin.1
    have hnext := Follows.displays os hconf hcb hspeaks hprompt hw ht₀ h h₀ hd hs₁ hin.1 hups.1 hfirst
      hshown (@updates_whole os conf chunks _ hwhole)
    refine ih (fun d hd => hc d (List.mem_cons_of_mem _ hd)) hs hstep hin.2 hups.2 ?_ hnext hwhole
    intro pre hpre
    have := hfits (data :: pre) (by rwa [List.cons_prefix_cons, and_iff_right rfl])
    rwa [List.flatten_cons, ← List.append_assoc] at this

end Run

/-- A session that is connected has typed nothing. -/
theorem initialise_typing (os : Os) (conf : Conf) (id socket : ℕ) (w : World) :
    ∃ lines, (initialise os conf ⟨{ id := id, socket := socket }, w⟩).typing =
      { blank with lines := lines } := by
  have h := initialise_acted os conf ⟨{ id := id, socket := socket }, w⟩
  refine ⟨passedLines (initialise os conf ⟨{ id := id, socket := socket }, w⟩).world.trace, ?_⟩
  rw [Conn.typing, Conn.editor, h.buffer, h.history, h.historyCursor]
  rfl

/-- **The client sees the prompt and the line** that the keys typed so far make,
after every update, from the greeting on. -/
theorem updates_displays (os : Os) (conf : Conf) (hp : conf.promptString ≠ [])
    (hprompt : ∀ b ∈ conf.promptString, Printable b) (htab : conf.tabCallback = some telnetTabCallback)
    (hcb : conf.newLineCallBack.isSome) (width : ℕ) (hgreets : GreetsCalmly width conf)
    (hspeaks : SpeaksCalmly width conf) (hw : width ≤ 80) (t₀ : Screen) (ht₀ : t₀.col < width)
    (hmode : t₀.mode = .ground) (hbelow : t₀.below = []) (id socket : ℕ) (w : World)
    (hnew : sentTo id w.trace = []) (keys : List (Key Byte)) (hkeys : Typed keys) (chunks : List Str)
    (hc : ∀ data ∈ chunks, IsChunk data) (hs : chunks.flatten <+: encode keys) (c : Conn)
    (hc₀ : c = initialise os conf ⟨{ id := id, socket := socket }, w⟩)
    (hin : KeysInOrder os conf chunks c) (hups : ArrowsAlone os conf chunks c)
    (hfits : LinesFit width conf blank chunks) (hwhole : (updates os conf chunks c).Whole) :
    Displays width (conf.promptString ++ (typeKeys blank (decode chunks.flatten).1).text)
      (decode chunks.flatten).2 ((updates os conf chunks c).screen width t₀) := by
  have hconf : Prompts conf := ⟨by simpa [Conf.interactivePrompt] using hp, htab⟩
  have htyped : Typed (decode chunks.flatten).1 := fun b hb =>
    hkeys b ((decode_begins hkeys hs).subset hb)
  obtain ⟨lines, htyping⟩ := initialise_typing os conf id socket w
  rw [← hc₀] at htyping
  have htext : ∀ keys, (typeKeys c.typing keys).text = (typeKeys blank keys).text := by
    intro keys
    obtain ⟨lines', hrun⟩ := run_lines tabComplete pushHistory blank lines keys
    rw [htyping, typeKeys, hrun]
    rfl
  have h₀ : c.typing.All Printable := by
    rw [htyping]
    exact ⟨by simp [blank], by simp [blank]⟩
  have hfits' : ∀ pre, pre <+: chunks →
      (conf.promptString ++ (typeKeys c.typing (decode ([] ++ pre.flatten)).1).text).length < width := by
    intro pre hpre
    rw [htext]
    exact hfits pre ((List.mem_inits _ _).mpr hpre)
  -- the greeting leaves the prompt
  have hscreen : ((⟨{ id := id, socket := socket }, w⟩ : Conn).screen width t₀) = t₀ := by
    show feed width (sentTo id w.trace) t₀ = t₀
    rw [hnew, feed_nil]
  have hshown : Displays width (conf.promptString ++ (typeKeys c.typing (decode []).1).text)
      (decode []).2 (c.screen width t₀) := by
    have hempty := hfits' [] List.nil_prefix
    have hblank : (typeKeys c.typing (decode []).1).text = [] := by
      rw [htext]
      rfl
    rw [List.flatten_nil, List.append_nil, hblank, List.append_nil] at hempty
    rw [hblank, List.append_nil, hc₀]
    refine initialise_displays os hconf.prompt hprompt hw ht₀ hgreets ?_ rfl hempty
      (by rw [hscreen]; exact hmode) (by unfold Conn.Level; rw [hscreen]; exact hbelow)
    rw [← hc₀]
    exact updates_whole os conf hwhole
  have hnext := follows_displays os hconf hcb hspeaks hprompt hw ht₀ h₀ (fun data hd => (hc data hd).1)
    htyped (Follows.refl c) hin hups hfits' hshown hwhole
  rw [List.nil_append, htext] at hnext
  exact hnext

/-- The connected callback of the program says no escapes. -/
theorem greetsCalmly_telnetConnectedCallback (width : ℕ) {conf : Conf}
    (hconf : conf.connectedCallback = some fun _ _ => telnetConnectedCallback) :
    GreetsCalmly width conf := by
  refine ⟨_, hconf, fun w s => ⟨⟨_, List.mem_cons_self⟩, fun data hm => calm_of_plain width ?_⟩⟩
  have hall : ∀ act ∈ telnetConnectedCallback, (0x1B : Byte) ∉ act.said := by decide +kernel
  exact hall _ hm

/-- A line with a letter taken back, the beginning of a command completed, and
the first line recalled; the cut is in a line end and in the up-arrow. -/
def pingChunks : List Str :=
  [str "pinx\x7f", str "g\r", str "\n", str "pi\t", str "\x1b[", str "A", str "!"]

/-- All that is sent in the greeting and for `pingChunks` goes out, answer by
answer. -/
def wholeOs : Os :=
  { (default : Os) with
    send := fun n =>
      [0, 3, 3, 3, 4, 5, 194, 2, 4, 5, 2, 2, 4, 5, 21, 2, 4, 5, 2, 2, 4, 5, 56, 2, 4, 5, 49, 2, 4, 5,
        116, 2, 4, 5, 55, 2, 4, 5, 46, 2, 4, 5, 56, 2, 4, 5, 58, 2, 4, 5, 49, 2, 0, 0, 5, 4, 5, 2, 3,
        0, 2, 0, 1, 4, 5, 6, 2, 4, 5, 6, 2, 0, 3, 4, 5, 2, 4, 0, 2, 0, 1, 3, 4, 5, 2, 4, 0,
        1].getD n 0 }

def answeringConf : Conf :=
  { promptConf with
    newLineCallBack := some fun _ _ line => telnetMessageCallback ⟨false, str "v1"⟩ [] line }

/-- With the callbacks of the program. -/
def greetingConf : Conf :=
  { answeringConf with connectedCallback := some fun _ _ => telnetConnectedCallback }

theorem updates_displays_ping :
    (typeKeys blank (decode pingChunks.flatten).1).text = str "ping!" ∧
      Displays 80 (str "> ping!") []
        ((updates wholeOs greetingConf pingChunks
          (initialise wholeOs greetingConf ⟨{ id := 0, socket := 4 }, {}⟩)).screen 80 {}) := by
  refine ⟨by decide +kernel, updates_displays wholeOs greetingConf (by decide)
    (fun b hb => (show Typed ((str "> ").map .char) by decide) b (List.mem_map_of_mem hb)) rfl rfl 80
    (greetsCalmly_telnetConnectedCallback 80 rfl)
    (@speaksCalmly_telnetMessageCallback 80 _ _ (fun _ => []) rfl (by decide) (by simp)) (by decide)
    {} (by decide) rfl rfl 0 4 {} rfl
    [.char 0x70, .char 0x69, .char 0x6E, .char 0x78, .back true, .char 0x67, .enter, .char 0x70,
      .char 0x69, .tab, .up, .char 0x21] (by decide) pingChunks (by decide) (by decide) _ rfl
    (by decide +kernel) (by decide +kernel) (by decide +kernel) (by decide +kernel)⟩

/-- A terminal behind the prompt. -/
def promptScreen : Screen := { line := str "> ", col := 2 }

/-- Everything that is sent has three bytes. -/
def arrowOs : Os := { (default : Os) with send := fun _ => 3 }

/-- An up-arrow where there is nothing to recall moves the client's cursor up,
and there it stays. -/
theorem not_displays_upAlone :
    (updates arrowOs answeringConf [ansiArrowUp]
        (freshConn ⟨0, 4, {}, 0, [], [], 0, false⟩ {})).Whole ∧
      KeysInOrder arrowOs answeringConf [ansiArrowUp] (freshConn ⟨0, 4, {}, 0, [], [], 0, false⟩ {}) ∧
      ∀ text, ¬ Displays 80 text []
        ((updates arrowOs answeringConf [ansiArrowUp]
          (freshConn ⟨0, 4, {}, 0, [], [], 0, false⟩ {})).screen 80
            { promptScreen with above := [str "before"] }) := by
  refine ⟨by decide +kernel, by decide +kernel, fun text h => ?_⟩
  have hbelow : ((updates arrowOs answeringConf [ansiArrowUp]
      (freshConn ⟨0, 4, {}, 0, [], [], 0, false⟩ {})).screen 80
        { promptScreen with above := [str "before"] }).below ≠ [] := by decide +kernel
  exact hbelow (h.below (.inl rfl))

end Telnet
end RepoInit
