/-
# What editing does with typed keys

An interactive session edits its whole buffer kind by kind: the history, the
arrow keys, 0x7F, 0x08, the tabs, and then it cuts the lines off. Each loop is
followed on the bytes of keys (`encode`) with the first bytes of another behind
them: the loops are the passes of the line editor, `dropUps`, `takeBack` and
`completeTabs`, and so keys that are in order do what they do one after the
other (`editBuffer_run`, `takeLines_editor`).

Key definitions: `tabComplete`, `Conn.editor`, `typeKeys`.
Key theorems: `stripEscapeCharacters_encode`, `processBackspace_takeBack`,
`processTabLoop_completeTabs`, `editBuffer_run`, `takeLines_editor`.
-/
import RepoInit.Telnet.Clean
import RepoInit.Telnet.Keys

namespace RepoInit
namespace Telnet

open Search Framing LineEditor

/-- The line a tab completes to. -/
def tabComplete (text : Str) : Str := if (tabAnswer text).2 ≠ [] then (tabAnswer text).2 else text

/-- What the session remembers besides its buffer, as an editor on a new
line. -/
def Conn.editor (c : Conn) : Editor Byte :=
  ⟨[], passedLines c.world.trace, c.session.history, c.session.historyCursor⟩

/-- The editor does what keys tell it. -/
def typeKeys (e : Editor Byte) (keys : List (Key Byte)) : Editor Byte :=
  run tabComplete pushHistory e keys

theorem typeKeys_append (e : Editor Byte) (keys keys' : List (Key Byte)) :
    typeKeys e (keys ++ keys') = typeKeys (typeKeys e keys) keys' :=
  run_append _ _ _ _ _

/-! ### Printable texts -/

theorem tabComplete_printable (text : Str) (h : ∀ b ∈ text, Printable b) :
    ∀ b ∈ tabComplete text, Printable b := by
  unfold tabComplete
  split
  · exact tabAnswer_printable text
  · exact h

theorem typeKeys_printable {e : Editor Byte} (he : e.All Printable) {keys : List (Key Byte)}
    (h : Typed keys) : (typeKeys e keys).All Printable :=
  run_all tabComplete_printable (fun _ _ _ hl => mem_pushHistory hl) he h

/-! ### Bytes that are not there -/

theorem Printable.not_mem {text : Str} (h : ∀ b ∈ text, Printable b) {c : Byte} (hc : ¬ Printable c) :
    c ∉ text := fun hm => hc (h c hm)

theorem Cut.not_mem {bytes : Str} (h : Cut bytes) {c : Byte} (hc : c ∉ ([0x0D, 0x1B, 0x5B] : Str)) :
    c ∉ bytes := by
  intro hm
  apply hc
  rcases h with rfl | rfl | rfl | rfl
  · simp at hm
  · exact List.mem_cons.mpr (Or.inl (List.mem_singleton.mp hm))
  · rw [List.mem_singleton.mp hm]; decide
  · rcases List.mem_cons.mp hm with rfl | hm
    · decide
    · rw [List.mem_singleton.mp hm]; decide

theorem Cut.length_le {bytes : Str} (h : Cut bytes) : bytes.length ≤ 2 := by
  rcases h with rfl | rfl | rfl | rfl <;> decide

/-- No special key has a byte `c`. -/
theorem not_mem_buffer {c : Byte} (hc : ¬ Printable c) (hcut : c ∉ ([0x0D, 0x1B, 0x5B] : Str))
    {keys : List (Key Byte)} (h : Typed keys)
    (hspecial : ∀ key ∈ specialKeys, c ∈ encodeKey key → key ∉ keys) {bytes : Str}
    (hbytes : Cut bytes) : c ∉ encode keys ++ bytes := by
  rw [List.mem_append, not_or]
  exact ⟨not_mem_encode hc h hspecial, hbytes.not_mem hcut⟩

theorem not_mem_backByte (kind : Bool) {keys : List (Key Byte)} (h : Typed keys)
    (hkeys : .back kind ∉ keys) {bytes : Str} (hbytes : Cut bytes) :
    backByte kind ∉ encode keys ++ bytes := by
  apply not_mem_buffer _ _ h _ hbytes
  · cases kind <;> decide
  · cases kind <;> decide
  · intro key hk hm
    obtain rfl : key = .back kind := by
      revert key
      cases kind <;> decide
    exact hkeys

/-! ### `stripNVT` and NUL -/

theorem stripNVT_of_not_mem {s : Str} (h : asciiNBSP ∉ s) : stripNVT s = s := by
  have := skip_append (k := 2) [] (isNVT_of_not_mem h)
  rw [stripNVT_eq]
  simpa using this

theorem replaceNull_of_not_mem {data : Str} (h : asciiNull ∉ data) : replaceNull data = data := by
  have hid : ∀ b ∈ data, (if b = asciiNull then asciiLF else b) = b := by
    intro b hb
    apply if_neg
    rintro rfl
    exact h hb
  calc replaceNull data = data.map id := List.map_congr_left hid
    _ = data := List.map_id data

/-! ### Arrow keys -/

theorem esc_not_mem_encodeKey {key : Key Byte} (hkey : key ≠ .up)
    (h : ∀ b, key = .char b → Printable b) : (0x1B : Byte) ∉ encodeKey key := by
  cases key with
  | char b =>
    intro hm
    exact (h b rfl).ne (c := 0x1B) (by decide) (List.mem_singleton.mp hm).symm
  | back kind => cases kind <;> decide
  | tab => decide
  | up => exact absurd rfl hkey
  | enter => decide

/-- Erasing the up-arrow sequences is dropping the up-arrows. -/
theorem eraseCursor_up {x : Str} (hx : (0x1B : Byte) ∉ x) {keys : List (Key Byte)} (h : Typed keys)
    {bytes : Str} (hbytes : Cut bytes) :
    eraseCursor ansiArrowUp (by decide) (x ++ (encode keys ++ bytes)) =
      x ++ (encode (dropUps keys) ++ bytes) := by
  induction keys generalizing x with
  | nil => exact eraseCursor_of_none _ (find_none_of_tail hx hbytes.length_le)
  | cons key keys ih =>
    have hkeys : Typed keys := fun b hb => h b (List.mem_cons_of_mem _ hb)
    by_cases hup : key = .up
    · subst hup
      have hfind : find ansiArrowUp (x ++ (ansiArrowUp ++ (encode keys ++ bytes))) = some x.length :=
        find_append_head _ hx
      rw [encode_cons, List.append_assoc]
      refine (eraseCursor_of_some _ hfind).trans ?_
      rw [erase_append]
      exact ih hx hkeys
    · have hdrop : dropUps (key :: keys) = key :: dropUps keys := by
        cases key <;> first | rfl | exact absurd rfl hup
      have hkey := esc_not_mem_encodeKey hup fun b hb => h b (hb ▸ List.mem_cons_self)
      have hx' : (0x1B : Byte) ∉ x ++ encodeKey key := by
        rw [List.mem_append, not_or]
        exact ⟨hx, hkey⟩
      have := ih hx' hkeys
      rw [hdrop, encode_cons, encode_cons]
      simpa only [List.append_assoc] using this

theorem esc_not_mem_encode {keys : List (Key Byte)} (h : Typed keys) (hup : .up ∉ keys) :
    (0x1B : Byte) ∉ encode keys := by
  intro hm
  obtain ⟨key, hk, hb⟩ := mem_encode.mp hm
  refine esc_not_mem_encodeKey (fun he => hup (he ▸ hk)) (fun b hb => h b (hb ▸ hk)) hb

/-- No cursor sequence is left where no up-arrow is. -/
theorem find_cursor_none {keys : List (Key Byte)} (h : Typed keys) (hup : .up ∉ keys) {bytes : Str}
    (hbytes : Cut bytes) (last : Byte) :
    find [0x1B, 0x5B, last] (encode keys ++ bytes) = none :=
  find_none_of_tail (esc_not_mem_encode h hup) hbytes.length_le

theorem find_up_isSome {keys : List (Key Byte)} (hup : .up ∈ keys) (bytes : Str) :
    (find ansiArrowUp (encode keys ++ bytes)).isSome := by
  obtain ⟨k₁, k₂, rfl⟩ := List.append_of_mem hup
  rw [find_isSome]
  exact ⟨encode k₁, encode k₂ ++ bytes, by simp [encodeKey]⟩

theorem typed_dropUps {keys : List (Key Byte)} (h : Typed keys) : Typed (dropUps keys) :=
  fun b hb => h b (mem_dropUps.mp hb).1

theorem stripEscapeCharacters_encode {keys : List (Key Byte)} (h : Typed keys) {bytes : Str}
    (hbytes : Cut bytes) :
    stripEscapeCharacters (encode keys ++ bytes) = encode (dropUps keys) ++ bytes := by
  have hnone := find_cursor_none (typed_dropUps h) (fun hm => (mem_dropUps.mp hm).2 rfl) hbytes
  have hup : eraseCursor ansiArrowUp (by decide) (encode keys ++ bytes) =
      encode (dropUps keys) ++ bytes := eraseCursor_up (x := []) (by simp) h hbytes
  have hdown : eraseCursor ansiArrowDown (by decide) (encode (dropUps keys) ++ bytes) =
      encode (dropUps keys) ++ bytes := eraseCursor_of_none _ (hnone 0x42)
  have hright : eraseCursor ansiArrowRight (by decide) (encode (dropUps keys) ++ bytes) =
      encode (dropUps keys) ++ bytes := eraseCursor_of_none _ (hnone 0x43)
  have hleft : eraseCursor ansiArrowLeft (by decide) (encode (dropUps keys) ++ bytes) =
      encode (dropUps keys) ++ bytes := eraseCursor_of_none _ (hnone 0x44)
  unfold stripEscapeCharacters
  dsimp only
  rw [hup, hdown, hright, hleft]

/-! ### Backspaces -/

theorem findBackspace_head (kind : Bool) {x y : Str} (hx : backByte kind ∉ x)
    (hdel : kind = true ∨ asciiDEL ∉ x ++ backByte kind :: y) :
    findBackspace (x ++ backByte kind :: y) = some x.length := by
  have hfind := findElem_append y hx
  unfold findBackspace
  cases kind with
  | true =>
    have hfind : findElem asciiDEL (x ++ backByte true :: y) = some x.length := hfind
    rw [hfind]
  | false =>
    rcases hdel with hdel | hdel
    · cases hdel
    · rw [findElem_eq_none.mpr hdel]
      exact hfind

theorem processBackspaceLoop_erase (found : Bool) {x y : Str} {a b : Byte}
    (h : findBackspace (x ++ a :: b :: y) = some (x.length + 1)) :
    processBackspaceLoop found (x ++ a :: b :: y) = processBackspaceLoop true (x ++ y) := by
  have he : erase (x ++ a :: b :: y) (x.length + 1 - 1) 2 = x ++ y := erase_append x [a, b] y
  have hlen : (x ++ a :: b :: y).length > 1 := by
    simp only [List.length_append, List.length_cons]
    omega
  rw [processBackspaceLoop_of_some found h, if_pos ⟨hlen, Nat.succ_pos _⟩, he]

theorem processBackspaceLoop_start (found : Bool) {buffer : Str}
    (h : findBackspace buffer = some 0) : processBackspaceLoop found buffer = (true, []) := by
  rw [processBackspaceLoop_of_some found h, if_neg (by simp)]
  exact processBackspaceLoop_of_none true rfl

/-- The loop goes through the backspaces of one kind as `takeBack` does. -/
theorem processBackspaceLoop_takeBack {kind : Bool} {before keys rest : List (Key Byte)}
    {bytes : Str} (htyped : Typed (before ++ keys)) (hbytes : Cut bytes)
    (hbefore : .back kind ∉ before) (hdel : kind = true ∨ .back true ∉ before ++ keys)
    (h : takeBack kind (decide (bytes ≠ [])) before keys = some rest) (found : Bool) :
    ∃ found', processBackspaceLoop found (encode before ++ (encode keys ++ bytes)) =
      processBackspaceLoop found' (encode rest ++ bytes) := by
  induction keys generalizing before found with
  | nil =>
    rw [← Option.some.inj h]
    exact ⟨found, rfl⟩
  | cons key keys ih =>
    have hdel' : kind = true ∨ asciiDEL ∉ encode (before ++ key :: keys) ++ bytes :=
      hdel.imp_right fun hno => not_mem_backByte true htyped hno hbytes
    have hno : backByte kind ∉ encode before := by
      have hb : Typed before := fun b hm => htyped b (List.mem_append_left _ hm)
      simpa using not_mem_backByte kind hb hbefore (Or.inl rfl)
    rcases takeBack_cases h with ⟨hkey, hrest⟩ | ⟨rfl, b, a, rfl, hrest⟩ | ⟨rfl, rfl, hcut, rfl, -⟩
    · have hassoc : before ++ key :: keys = before ++ [key] ++ keys := by simp
      rw [hassoc] at htyped hdel
      have hbefore' : .back kind ∉ before ++ [key] := by
        simp [hbefore, Ne.symm hkey]
      obtain ⟨found', hf⟩ := ih htyped hbefore' hdel hrest found
      exact ⟨found', by simpa using hf⟩
    · have hsub : ∀ k ∈ b ++ keys, k ∈ b ++ [.char a] ++ .back kind :: keys := by
        intro k hk
        rcases List.mem_append.mp hk with hk | hk
        · exact List.mem_append_left _ (List.mem_append_left _ hk)
        · exact List.mem_append_right _ (List.mem_cons_of_mem _ hk)
      obtain ⟨found', hf⟩ := @ih b (fun c hc => htyped c (hsub _ hc))
        (fun hm => hbefore (List.mem_append_left _ hm))
        (hdel.imp_right fun hno hm => hno (hsub _ hm)) hrest true
      refine ⟨found', ?_⟩
      have hbuffer : encode (b ++ [.char a]) ++ (encode (.back kind :: keys) ++ bytes) =
          encode b ++ a :: backByte kind :: (encode keys ++ bytes) := by
        simp [encodeKey]
      have hfind := findBackspace_head kind (y := encode keys ++ bytes) hno
        (by simpa [encodeKey] using hdel')
      rw [hbuffer, ← hf]
      apply processBackspaceLoop_erase
      simpa [encodeKey] using hfind
    · -- the buffer is cleared
      obtain rfl : bytes = [] := by simpa using hcut
      have hfind := findBackspace_head kind (x := []) (y := encode keys ++ []) (by simp)
        (by simpa [encodeKey] using hdel')
      have hbuffer : encode [] ++ (encode (.back kind :: keys) ++ []) =
          [] ++ backByte kind :: (encode keys ++ []) := rfl
      refine ⟨true, ?_⟩
      rw [hbuffer, processBackspaceLoop_start found hfind, processBackspaceLoop_of_none true rfl]
      rfl

/-- Both kinds, one after the other. -/
theorem processBackspace_takeBack {keys keys₁ keys₂ : List (Key Byte)} {bytes : Str}
    (htyped : Typed keys) (hbytes : Cut bytes)
    (h₁ : takeBack true (decide (bytes ≠ [])) [] keys = some keys₁)
    (h₂ : takeBack false (decide (bytes ≠ [])) [] keys₁ = some keys₂) :
    (processBackspace (encode keys ++ bytes)).2 = encode keys₂ ++ bytes := by
  obtain ⟨hsub₁, hno₁⟩ := mem_takeBack (by simp) h₁
  obtain ⟨hsub₂, hno₂⟩ := mem_takeBack (by simp) h₂
  have htyped₁ : Typed keys₁ := fun b hb => htyped b (hsub₁ _ hb)
  have htyped₂ : Typed keys₂ := fun b hb => htyped₁ b (hsub₂ _ hb)
  obtain ⟨found, hf⟩ := @processBackspaceLoop_takeBack true [] keys keys₁ bytes htyped hbytes
    (by simp) (Or.inl rfl) h₁ false
  obtain ⟨found', hf'⟩ := @processBackspaceLoop_takeBack false [] keys₁ keys₂ bytes htyped₁ hbytes
    (by simp) (Or.inr hno₁) h₂ found
  have hdel : findElem asciiDEL (encode keys₂ ++ bytes) = none :=
    findElem_eq_none.mpr (not_mem_backByte true htyped₂ (fun hm => hno₁ (hsub₂ _ hm)) hbytes)
  have hbs : findElem asciiBS (encode keys₂ ++ bytes) = none :=
    findElem_eq_none.mpr (not_mem_backByte false htyped₂ hno₂ hbytes)
  have hnone : findBackspace (encode keys₂ ++ bytes) = none := by
    unfold findBackspace
    rw [hdel, hbs]
  rw [encode_nil, List.nil_append] at hf hf'
  rw [processBackspace, hf, hf', processBackspaceLoop_of_none found' hnone]

/-! ### Tabs -/

theorem Acted.editor {c c' : Conn} (h : Acted c c') : c'.editor = c.editor := by
  simp only [Conn.editor, h.passedLines, h.history, h.historyCursor]

theorem setBuffer_editor (c : Conn) (buffer : Str) : (c.setBuffer buffer).editor = c.editor := rfl

/-- No command begins with more than a line. -/
theorem tabAnswer_of_cr {text : Str} (h : (0x0D : Byte) ∈ text) : (tabAnswer text).2 = [] := by
  rcases tabAnswer_cases text with h0 | ⟨hc, hpre⟩
  · exact h0
  · have hb := command_bytes _ hc _ (hpre.subset h)
    exact absurd hb (by decide)

/-- The tab callback of the program, asked about a line that is the buffer's
first, or about more than a line with nothing to complete at its end. -/
theorem completeAt_line (os : Os) {conf : Conf} (htab : conf.tabCallback = some telnetTabCallback)
    {ended line y : Str} (hended : ended = [] ∨ ((0x0D : Byte) ∈ ended ∧ tabComplete line = line))
    {c : Conn} (hc : c.session.buffer = ended ++ line ++ y) :
    (completeAt os conf (ended ++ line).length c).session.buffer = ended ++ (tabComplete line ++ y) ∧
      (completeAt os conf (ended ++ line).length c).editor = c.editor := by
  have htake : c.session.buffer.take (ended ++ line).length = ended ++ line := by
    rw [hc, List.take_left]
  have hrest : erase c.session.buffer 0 (ended ++ line).length = y := by
    rw [hc, erase, List.take_zero, Nat.zero_add, List.drop_left, List.nil_append]
  have hact := runActs_acted os conf (tabAnswer (ended ++ line)).1 c
  unfold completeAt
  rw [htab]
  dsimp only [telnetTabCallback]
  rw [htake, hact.buffer, hrest]
  rcases hended with rfl | ⟨hcr, hline⟩
  · rw [List.nil_append]
    by_cases hanswer : (tabAnswer line).2 = []
    · rw [if_neg (not_not.mpr hanswer), tabComplete, if_neg (not_not.mpr hanswer)]
      exact ⟨hact.buffer.trans (by rw [hc]; simp), hact.editor⟩
    · rw [if_pos hanswer, tabComplete, if_pos hanswer]
      exact ⟨by simp [Conn.setBuffer], hact.editor⟩
  · have hanswer := tabAnswer_of_cr (List.mem_append_left line hcr)
    rw [if_neg (not_not.mpr hanswer), hline]
    exact ⟨by rw [hact.buffer, hc, List.append_assoc], hact.editor⟩

theorem processTabLoop_of_find (os : Os) (conf : Conf) (b : Bool) {x y : Str} {c : Conn}
    (hc : c.session.buffer = x ++ asciiTab :: y) (hx : asciiTab ∉ x) :
    processTabLoop os conf b c =
      processTabLoop os conf true (completeAt os conf x.length (c.setBuffer (x ++ y))) := by
  have hfind : findElem asciiTab c.session.buffer = some x.length := by
    rw [hc]
    exact findElem_append y hx
  rw [processTabLoop_of_some os conf b hfind, hc, erase_append_cons]

theorem tab_not_mem_line {keys : List (Key Byte)} (h : Plain Printable keys) {line : Str}
    (hline : ∀ b ∈ line, Printable b) : asciiTab ∉ encode keys ++ line := by
  rw [List.mem_append, not_or]
  refine ⟨fun hm => ?_, Printable.not_mem hline (by decide)⟩
  obtain ⟨key, hk, hb⟩ := mem_encode.mp hm
  rcases h key hk with rfl | ⟨b, rfl, hb'⟩
  · revert hb
    decide
  · exact hb'.ne (c := asciiTab) (by decide) (List.mem_singleton.mp hb).symm

theorem cr_mem_encode {keys : List (Key Byte)} (h : .enter ∈ keys) : (0x0D : Byte) ∈ encode keys :=
  mem_encode.mpr ⟨_, h, by decide⟩

/-- The loop goes through the tabs as `completeTabs` does. -/
theorem processTabLoop_completeTabs (os : Os) {conf : Conf}
    (htab : conf.tabCallback = some telnetTabCallback) {before keys rest : List (Key Byte)}
    {line bytes : Str} (hbytes : Cut bytes) (hkeys : Typed keys) (hbefore : Plain Printable before)
    (hended : before = [] ∨ .enter ∈ before) (hline : ∀ b ∈ line, Printable b)
    (h : completeTabs tabComplete before line keys = some rest) (found : Bool) {c : Conn}
    (hc : c.session.buffer = encode before ++ line ++ (encode keys ++ bytes)) :
    (processTabLoop os conf found c).2.session.buffer = encode rest ++ bytes ∧
      (processTabLoop os conf found c).2.editor = c.editor := by
  induction keys generalizing before line found c with
  | nil =>
    have hnone : findElem asciiTab c.session.buffer = none := by
      rw [findElem_eq_none, hc, encode_nil, List.nil_append, List.mem_append, not_or]
      exact ⟨tab_not_mem_line hbefore hline, hbytes.not_mem (by decide)⟩
    rw [processTabLoop_of_none os conf found hnone, hc, ← Option.some.inj h]
    simp
  | cons key keys ih =>
    have hkeys' : Typed keys := fun b hb => hkeys b (List.mem_cons_of_mem _ hb)
    cases key with
    | char b =>
      have hb := forall_mem_concat hline (hkeys b List.mem_cons_self)
      exact ih hkeys' hbefore hended hb h found (by simpa [encodeKey] using hc)
    | enter =>
      have henter : Plain Printable [Key.enter] := fun key hk => Or.inl (List.mem_singleton.mp hk)
      have hplain := (hbefore.append (plain_chars hline)).append henter
      exact ih hkeys' hplain (Or.inr (by simp)) (by simp) h found (by simpa using hc)
    | tab =>
      rw [completeTabs] at h
      by_cases hcomplete : before = [] ∨ tabComplete line = line
      · rw [if_pos hcomplete] at h
        have hended' : encode before = [] ∨
            ((0x0D : Byte) ∈ encode before ∧ tabComplete line = line) := by
          rcases hended with rfl | henter
          · exact Or.inl rfl
          · have hne : before ≠ [] := List.ne_nil_of_mem henter
            exact Or.inr ⟨cr_mem_encode henter, hcomplete.resolve_left hne⟩
        obtain ⟨hbuffer, heditor⟩ := completeAt_line os htab hended'
          (c := c.setBuffer (encode before ++ line ++ (encode keys ++ bytes))) rfl
        have hprintable := tabComplete_printable line hline
        rw [processTabLoop_of_find os conf found (y := encode keys ++ bytes)
          (by simpa [encodeKey] using hc) (tab_not_mem_line hbefore hline)]
        obtain ⟨h₁, h₂⟩ := ih hkeys' hbefore hended hprintable h true
          (by rw [hbuffer, List.append_assoc])
        exact ⟨h₁, h₂.trans (heditor.trans (setBuffer_editor c _))⟩
      · rw [if_neg hcomplete] at h
        cases h
    | back kind => cases h
    | up => cases h

/-! ### The passes together -/

/-- A session with a prompt and the program's tab callback. -/
structure Prompts (conf : Conf) : Prop where
  prompt : conf.interactivePrompt = true
  tab : conf.tabCallback = some telnetTabCallback

theorem editBuffer_snd (os : Os) {conf : Conf} (hp : conf.interactivePrompt = true) (c : Conn) :
    (editBuffer os conf c).2 = (processTab os conf ((processCommandHistory os conf c).2.setBuffer
      (processBackspace (stripEscapeCharacters
        (processCommandHistory os conf c).2.session.buffer)).2)).2 := by
  unfold editBuffer
  rw [if_pos hp]
  rfl

/-- The passes behind the history. -/
theorem processTab_rearrange (os : Os) {conf : Conf} (hconf : Prompts conf)
    {keys rest : List (Key Byte)} {bytes : Str} (hkeys : Typed keys) (hbytes : Cut bytes)
    (h : rearrange tabComplete (decide (bytes ≠ [])) keys = some rest) {c : Conn}
    (hc : c.session.buffer = encode keys ++ bytes) :
    (processTab os conf (c.setBuffer (processBackspace
        (stripEscapeCharacters c.session.buffer)).2)).2.session.buffer = encode rest ++ bytes ∧
      (processTab os conf (c.setBuffer (processBackspace
        (stripEscapeCharacters c.session.buffer)).2)).2.editor = c.editor := by
  obtain ⟨keys₁, h₁, h⟩ := Option.bind_eq_some_iff.mp h
  obtain ⟨keys₂, h₂, h₃⟩ := Option.bind_eq_some_iff.mp h
  have hdrop := typed_dropUps hkeys
  have htyped : Typed keys₂ := fun b hb =>
    hdrop b ((mem_takeBack (by simp) h₁).1 _ ((mem_takeBack (by simp) h₂).1 _ hb))
  rw [hc, stripEscapeCharacters_encode hkeys hbytes, processBackspace_takeBack hdrop hbytes h₁ h₂]
  exact @processTabLoop_completeTabs os conf hconf.tab [] keys₂ rest [] bytes hbytes htyped
    (by simp [Plain]) (Or.inl rfl) (by simp) h₃ false _ rfl

/-- The cursor goes one back and the buffer is the entry there. -/
theorem processCommandHistory_recall (os : Os) {conf : Conf} (hp : conf.interactivePrompt = true)
    {c : Conn} (hup : (find ansiArrowUp c.session.buffer).isSome) (hhist : c.session.history ≠ []) :
    (processCommandHistory os conf c).2.session.buffer =
        c.session.history.getD (c.session.historyCursor - 1) [] ∧
      (processCommandHistory os conf c).2.editor =
        { c.editor with cursor := c.session.historyCursor - 1 } := by
  have hcursor : (recallUp c.session).historyCursor = c.session.historyCursor - 1 := by
    unfold recallUp
    dsimp only
    split
    · rfl
    · omega
  obtain ⟨hbuffer, hhistory, hc, hlines⟩ :=
    counterCursor_session os ansiArrowDown { c with session := recallUp c.session }
  unfold processCommandHistory
  rw [if_pos hp, if_pos ⟨hup, hhist⟩]
  constructor
  · rw [hbuffer, ← hcursor]
    rfl
  · simp only [Conn.editor, hhistory, hc, hlines, hcursor]
    rfl

/-- Without an up-arrow, or without a history, nothing is recalled. -/
theorem processCommandHistory_idle (os : Os) (conf : Conf) {c : Conn} {keys : List (Key Byte)}
    {bytes : Str} (hkeys : Typed keys) (hbytes : Cut bytes)
    (hc : c.session.buffer = encode keys ++ bytes) (h : ¬ (c.session.history ≠ [] ∧ .up ∈ keys)) :
    (processCommandHistory os conf c).2 = c := by
  have hnone : c.session.history ≠ [] → ∀ last, find [0x1B, 0x5B, last] c.session.buffer = none := by
    intro hhist last
    rw [hc]
    exact find_cursor_none hkeys (fun hup => h ⟨hhist, hup⟩) hbytes last
  unfold processCommandHistory
  split_ifs with hp hup hdown
  · have := hnone hup.2 0x41
    simp [ansiArrowUp, this] at hup
  · have := hnone hdown.2 0x42
    simp [ansiArrowDown, this] at hdown
  · rfl
  · rfl

/-- **Editing leaves keys that do what the received ones do, one after the
other.** -/
theorem editBuffer_run (os : Os) {conf : Conf} (hconf : Prompts conf) {c : Conn}
    {keys : List (Key Byte)} {bytes : Str} (hkeys : Typed keys) (hbytes : Cut bytes)
    (hc : c.session.buffer = encode keys ++ bytes)
    (hhist : ∀ line ∈ c.session.history, ∀ b ∈ line, Printable b)
    (h : InOrder tabComplete pushHistory c.editor keys (decide (bytes ≠ []))) :
    ∃ rest, Plain Printable rest ∧
      (editBuffer os conf c).2.session.buffer = encode rest ++ bytes ∧
      typeKeys (editBuffer os conf c).2.editor rest = typeKeys c.editor keys := by
  rw [editBuffer_snd os hconf.prompt]
  unfold InOrder at h
  by_cases hup : c.editor.history ≠ [] ∧ .up ∈ keys
  · rw [if_pos hup] at h
    obtain ⟨hlast, hcut⟩ := h
    obtain rfl : bytes = [] := by simpa using hcut
    have hfind : (find ansiArrowUp c.session.buffer).isSome := by
      rw [hc]
      exact find_up_isSome hup.2 []
    obtain ⟨hbuffer, heditor⟩ := processCommandHistory_recall os hconf.prompt hfind hup.1
    set entry := c.session.history.getD (c.session.historyCursor - 1) [] with hentry
    have hprintable : ∀ b ∈ entry, Printable b := getD_all hhist _
    obtain ⟨hbuffer', heditor'⟩ := processTab_rearrange os hconf (charsAll_chars hprintable) hbytes
      (rearrange_chars _ entry) (c := (processCommandHistory os conf c).2) (by simpa using hbuffer)
    refine ⟨entry.map .char, plain_chars hprintable, hbuffer', ?_⟩
    have hrun : typeKeys c.editor keys =
        { c.editor with cursor := c.session.historyCursor - 1, text := entry } :=
      run_recallsLast hup.1 hlast
    rw [heditor', heditor, hrun, typeKeys, run_chars]
    rfl
  · rw [if_neg hup] at h
    obtain ⟨rest, hrest⟩ := Option.isSome_iff_exists.mp h.2
    rw [processCommandHistory_idle os conf hkeys hbytes hc hup]
    obtain ⟨hbuffer, heditor⟩ := processTab_rearrange os hconf hkeys hbytes hrest hc
    refine ⟨rest, rearrange_plain tabComplete_printable hkeys hrest, hbuffer, ?_⟩
    rw [heditor]
    exact run_rearrange rfl h.1 hrest

/-! ### Lines -/

/-- Cutting the lines off is what the line ends among the keys do. -/
theorem split_plain {keys : List (Key Byte)} (h : Plain Printable keys) {bytes : Str}
    (hbytes : Cut bytes) {e : Editor Byte} (he : ∀ b ∈ e.text, Printable b) :
    ∃ ls, split crlf (e.text ++ (encode keys ++ bytes)) = (ls, (typeKeys e keys).text ++ bytes) ∧
      (typeKeys e keys).lines = e.lines ++ ls ∧
      (typeKeys e keys).history = pushLines e.history ls ∧
      (typeKeys e keys).cursor =
        if ls = [] then e.cursor else (pushLines e.history ls).length := by
  induction keys generalizing e with
  | nil =>
    have hlf : (0x0A : Byte) ∉ e.text ++ bytes := by
      rw [List.mem_append, not_or]
      exact ⟨Printable.not_mem he (by decide), hbytes.not_mem (by decide)⟩
    have hnone : find crlf (e.text ++ bytes) = none :=
      find_eq_none.mpr fun hi => hlf (hi.subset (by decide))
    refine ⟨[], ?_, by simp [typeKeys, run], rfl, rfl⟩
    rw [encode_nil, List.nil_append, split_of_none hnone]
    rfl
  | cons key keys ih =>
    have hkeys : Plain Printable keys := fun k hk => h k (List.mem_cons_of_mem _ hk)
    rcases h key List.mem_cons_self with rfl | ⟨b, rfl, hb⟩
    · obtain ⟨ls, hsplit, hlines, hhistory, hcursor⟩ :=
        ih hkeys (e := press tabComplete pushHistory e .enter) (by simp [press])
      have hfind : find crlf (e.text ++ (crlf ++ (encode keys ++ bytes))) = some e.text.length :=
        find_append_head _ (Printable.not_mem he (by decide))
      refine ⟨e.text :: ls, ?_, ?_, hhistory, ?_⟩
      · have hsplit : split crlf (encode keys ++ bytes) =
            (ls, (typeKeys e (.enter :: keys)).text ++ bytes) := hsplit
        rw [encode_cons, List.append_assoc]
        refine (split_of_find crlf_ne_nil hfind).trans ?_
        rw [hsplit]
      · refine hlines.trans ?_
        simp [press]
      · refine hcursor.trans ?_
        by_cases hls : ls = []
        · subst hls
          rfl
        · rw [if_neg hls, if_neg (by simp)]
          rfl
    · obtain ⟨ls, hsplit, hrest⟩ := ih hkeys (e := press tabComplete pushHistory e (.char b))
        (forall_mem_concat he hb)
      have hassoc : e.text ++ (encode (.char b :: keys) ++ bytes) =
          e.text ++ [b] ++ (encode keys ++ bytes) := by
        simp [encodeKey]
      refine ⟨ls, ?_, hrest⟩
      rw [hassoc]
      exact hsplit

theorem takeLines_editor (os : Os) {conf : Conf} (hcb : conf.newLineCallBack.isSome) {c : Conn}
    {keys : List (Key Byte)} (h : Plain Printable keys) {bytes : Str} (hbytes : Cut bytes)
    (hc : c.session.buffer = encode keys ++ bytes) :
    (takeLines os conf c).session.buffer = (typeKeys c.editor keys).text ++ bytes ∧
      (takeLines os conf c).editor = { typeKeys c.editor keys with text := [] } := by
  obtain ⟨callback, hcb⟩ := Option.isSome_iff_exists.mp hcb
  obtain ⟨ls, hsplit, hlines, hhistory, hcursor⟩ := split_plain h hbytes (e := c.editor) (by simp [Conn.editor])
  have hsplit : split crlf c.session.buffer = (ls, (typeKeys c.editor keys).text ++ bytes) := by
    rw [hc]
    exact hsplit
  obtain ⟨h₁, h₂, h₃⟩ := processLines_eq os conf callback hcb ls
    (c.setBuffer ((typeKeys c.editor keys).text ++ bytes))
  have h₄ := processLines_historyCursor os conf callback hcb ls
    (c.setBuffer ((typeKeys c.editor keys).text ++ bytes))
  rw [h₂] at h₄
  unfold takeLines
  rw [getCompleteLines_eq, hsplit]
  refine ⟨h₁, ?_⟩
  exact Editor.ext rfl (h₃.trans hlines.symm) (h₂.trans hhistory.symm) (h₄.trans hcursor.symm)

end Telnet
end RepoInit
