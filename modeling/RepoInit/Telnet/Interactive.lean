/-
# How an interactive session cuts its stream into lines

An update whose keys are in order, by what it finds in its buffer, does what
the line editor does with them, one after the other (`update_editor`), and so a
run of such updates passes the lines on that the same bytes give one at a time
(`sameLines_of_keysInOrder`). Keys that are not in order lose lines: an 0x7F
behind a line end takes the line end with it (`not_sameLines_delete`).

Key definitions: `StepInOrder`, `KeysInOrder`, `Follows`, `SameLines`.
Key theorems: `update_editor`, `updates_follows`, `sameLines_of_keysInOrder`.
-/
import RepoInit.Telnet.Editing

namespace RepoInit
namespace Telnet

open LineEditor

/-- The keys in the buffer with the received chunk, and whether bytes of
another one are left, allow for handling them kind by kind. -/
def StepInOrder (c : Conn) (data : Str) : Prop :=
  InOrder tabComplete pushHistory c.editor (decode (c.session.buffer ++ data)).1
    (decide ((decode (c.session.buffer ++ data)).2 ≠ []))

instance (c : Conn) (data : Str) : Decidable (StepInOrder c data) :=
  inferInstanceAs (Decidable (InOrder _ _ _ _ _))

/-- Every update of a run finds its keys in order. -/
def KeysInOrder (os : Os) (conf : Conf) : List Str → Conn → Prop
  | [], _ => True
  | data :: chunks, c =>
    StepInOrder c data ∧ KeysInOrder os conf chunks (TelnetSession.update os conf (.bytes data) c)

instance decidableKeysInOrder (os : Os) (conf : Conf) :
    (chunks : List Str) → (c : Conn) → Decidable (KeysInOrder os conf chunks c)
  | [], _ => inferInstanceAs (Decidable True)
  | data :: chunks, c =>
    have := decidableKeysInOrder os conf chunks (TelnetSession.update os conf (.bytes data) c)
    inferInstanceAs (Decidable (_ ∧ _))

/-! ### One update -/

/-- **An update whose keys are in order does what the editor does with
them.** -/
theorem update_editor (os : Os) {conf : Conf} (hconf : Prompts conf)
    (hcb : conf.newLineCallBack.isSome) {data : Str} (hd : data ≠ []) {c : Conn}
    (hkeys : Typed (decode (c.session.buffer ++ data)).1)
    (hhist : ∀ line ∈ c.session.history, ∀ b ∈ line, Printable b) (h : StepInOrder c data) :
    (TelnetSession.update os conf (.bytes data) c).session.buffer =
        (typeKeys c.editor (decode (c.session.buffer ++ data)).1).text ++
          (decode (c.session.buffer ++ data)).2 ∧
      (TelnetSession.update os conf (.bytes data) c).editor =
        { typeKeys c.editor (decode (c.session.buffer ++ data)).1 with text := [] } := by
  obtain ⟨c₀, hframed, hcursor, hreceive⟩ := update_receive os conf hd c
  simp only [Conn.framed, Prod.mk.injEq] at hframed
  obtain ⟨hlines, hbuffer, hhistory⟩ := hframed
  have heditor : c₀.editor = c.editor := Editor.ext rfl hlines hhistory hcursor
  have hecho := echoBack_acted os data (noteReceived os data c₀)
  -- neither a negotiation sequence nor a NUL is in what was typed
  have hjoin := encode_decode (c.session.buffer ++ data)
  have hcut := cut_decode (c.session.buffer ++ data)
  have hno : ∀ b, ¬ Printable b → b ∉ ([0x0D, 0x1B, 0x5B] : Str) →
      (∀ key ∈ specialKeys, b ∉ encodeKey key) → b ∉ c.session.buffer ++ data := by
    intro b hb hb' hspecial
    rw [← hjoin]
    exact not_mem_buffer hb hb' hkeys (fun key hk hm => absurd hm (hspecial key hk)) hcut
  have hnull : asciiNull ∉ data := fun hm =>
    hno asciiNull (by decide) (by decide) (by decide) (List.mem_append_right _ hm)
  have hnvt := hno asciiNBSP (by decide) (by decide) (by decide)
  set c₁ := (echoBack os data (noteReceived os data c₀)).setBuffer (c.session.buffer ++ data) with hc₁
  have htake : takeKeys os conf data c₀ = editBuffer os conf c₁ := by
    have hstrip : stripNVT ((echoBack os data (noteReceived os data c₀)).session.buffer ++
        replaceNull data) = c.session.buffer ++ data := by
      have hb : (echoBack os data (noteReceived os data c₀)).session.buffer = c.session.buffer :=
        hecho.buffer.trans hbuffer
      rw [hb, replaceNull_of_not_mem hnull, stripNVT_of_not_mem hnvt]
    unfold takeKeys
    dsimp only
    rw [hstrip]
  have heditor₁ : c₁.editor = c.editor := hecho.editor.trans heditor
  have hhist₁ : ∀ line ∈ c₁.session.history, ∀ b ∈ line, Printable b := by
    have hsame : c₁.session.history = c.session.history := hecho.history.trans hhistory
    rw [hsame]
    exact hhist
  obtain ⟨rest, hplain, hedit, hrun⟩ := editBuffer_run os hconf hkeys hcut (c := c₁) hjoin.symm
    hhist₁ (by rw [heditor₁]; exact h)
  rw [heditor₁] at hrun
  obtain ⟨htext, hdone⟩ := takeLines_editor os hcb hplain hcut hedit
  rw [hrun] at htext hdone
  have hacted := receive_acted os conf data c₀
  rw [htake] at hacted
  rw [hreceive, hacted.buffer, hacted.editor]
  exact ⟨htext, hdone⟩

/-! ### Runs -/

/-- The session as an editor, where no bytes of a key wait in its buffer. -/
def Conn.typing (c : Conn) : Editor Byte := { c.editor with text := c.session.buffer }

/-- An editor before the first key. -/
def blank : Editor Byte := { text := [], lines := [], history := [], cursor := 0 }

/-- `c` is where the editor gets from `c₀` by what was typed as `s`; the first
bytes of a key not complete wait at the end of the buffer. -/
structure Follows (c₀ : Conn) (s : Str) (c : Conn) : Prop where
  editor : c.editor = { typeKeys c₀.typing (decode s).1 with text := [] }
  buffer : c.session.buffer = (typeKeys c₀.typing (decode s).1).text ++ (decode s).2

theorem Follows.refl (c : Conn) : Follows c [] c := ⟨rfl, (List.append_nil _).symm⟩

theorem typed_decode_left {s t : Str} (h : Typed (decode (s ++ t)).1) : Typed (decode s).1 := by
  rw [decode_append, foldl_decodeByte_shift] at h
  exact fun b hb => h b (List.mem_append_left _ hb)

section Follows

variable {c₀ c : Conn} {s : Str} (h : Follows c₀ s c) (h₀ : c₀.typing.All Printable)

include h h₀

/-- What the session then reads are the text of its line and the new keys. -/
theorem Follows.decode_buffer (hs : Typed (decode s).1) (data : Str) :
    (decode (c.session.buffer ++ data)).1 =
        (typeKeys c₀.typing (decode s).1).text.map .char ++
          (data.foldl decodeByte ([], (decode s).2)).1 ∧
      (decode (c.session.buffer ++ data)).2 = (data.foldl decodeByte ([], (decode s).2)).2 := by
  have htext := (typeKeys_printable h₀ hs).1
  rw [h.buffer, decode_append, decode_text htext (cut_decode s), foldl_decodeByte_shift]
  exact ⟨rfl, rfl⟩

/-- A chunk more, if its keys are in order. -/
theorem Follows.update (os : Os) {conf : Conf} (hconf : Prompts conf)
    (hcb : conf.newLineCallBack.isSome) {data : Str} (hd : data ≠ [])
    (hs : Typed (decode (s ++ data)).1) (hin : StepInOrder c data) :
    Follows c₀ (s ++ data) (TelnetSession.update os conf (.bytes data) c) := by
  have hs₀ := typed_decode_left hs
  have hall := typeKeys_printable h₀ hs₀
  obtain ⟨hdec₁, hdec₂⟩ := h.decode_buffer h₀ hs₀ data
  have hdec : decode (s ++ data) = ((decode s).1 ++ (data.foldl decodeByte ([], (decode s).2)).1,
      (data.foldl decodeByte ([], (decode s).2)).2) := by
    rw [decode_append]
    exact foldl_decodeByte_shift _ _ _
  set e := typeKeys c₀.typing (decode s).1 with he
  set new := (data.foldl decodeByte ([], (decode s).2)).1 with hnew
  -- typing the unfinished line again leads back to `e`
  have htype : typeKeys c.editor (e.text.map .char ++ new) =
      typeKeys c₀.typing (decode (s ++ data)).1 := by
    have hline : typeKeys c.editor (e.text.map .char) = e := by
      rw [typeKeys, run_chars, h.editor]
      rfl
    calc typeKeys c.editor (e.text.map .char ++ new)
        = typeKeys (typeKeys c.editor (e.text.map .char)) new := typeKeys_append _ _ _
      _ = typeKeys e new := by rw [hline]
      _ = typeKeys c₀.typing ((decode s).1 ++ new) := (typeKeys_append _ _ _).symm
      _ = typeKeys c₀.typing (decode (s ++ data)).1 := by rw [hdec]
  have htyped : Typed (decode (c.session.buffer ++ data)).1 := by
    rw [hdec₁]
    refine (charsAll_chars hall.1).append fun b hb => hs b ?_
    rw [hdec]
    exact List.mem_append_right _ hb
  have hhist : ∀ line ∈ c.session.history, ∀ b ∈ line, Printable b := by
    have hsame : c.session.history = e.history := congrArg Editor.history h.editor
    rw [hsame]
    exact hall.2
  obtain ⟨hbuffer, heditor⟩ := update_editor os hconf hcb hd htyped hhist hin
  rw [hdec₁, htype] at hbuffer heditor
  refine ⟨heditor, ?_⟩
  rw [hbuffer, hdec₂, hdec]

/-- The keys of a single byte are in order. -/
theorem Follows.stepInOrder (hs : Typed (decode s).1) (b : Byte) : StepInOrder c [b] := by
  have htext := (typeKeys_printable h₀ hs).1
  apply inOrder_single
  rw [h.buffer]
  exact single_decode htext (cut_decode s) b

end Follows

/-- **A run whose keys are in order follows the editor.** -/
theorem updates_follows (os : Os) {conf : Conf} (hconf : Prompts conf)
    (hcb : conf.newLineCallBack.isSome) {c₀ : Conn} (h₀ : c₀.typing.All Printable)
    {chunks : List Str} (hc : ∀ data ∈ chunks, data ≠ []) {s : Str}
    (hs : Typed (decode (s ++ chunks.flatten)).1) {c : Conn} (h : Follows c₀ s c)
    (hin : KeysInOrder os conf chunks c) :
    Follows c₀ (s ++ chunks.flatten) (updates os conf chunks c) := by
  induction chunks generalizing s c with
  | nil => simpa [updates] using h
  | cons data chunks ih =>
    rw [List.flatten_cons, ← List.append_assoc] at hs ⊢
    have hstep := h.update h₀ os hconf hcb (hc data List.mem_cons_self) (typed_decode_left hs) hin.1
    exact ih (fun d hd => hc d (List.mem_cons_of_mem _ hd)) hs hstep hin.2

theorem flatten_bytes (s : Str) : (s.map fun b => [b]).flatten = s := by
  induction s with
  | nil => rfl
  | cons b s ih => rw [List.map_cons, List.flatten_cons, ih]; rfl

/-- Keys that are received a byte at a time are in order. -/
theorem keysInOrder_bytes (os : Os) {conf : Conf} (hconf : Prompts conf)
    (hcb : conf.newLineCallBack.isSome) {c₀ : Conn} (h₀ : c₀.typing.All Printable) (t : Str) {s : Str}
    (hs : Typed (decode (s ++ t)).1) {c : Conn} (h : Follows c₀ s c) :
    KeysInOrder os conf (t.map fun b => [b]) c := by
  induction t generalizing s c with
  | nil => trivial
  | cons b t ih =>
    have hassoc : s ++ b :: t = s ++ [b] ++ t := by simp
    rw [hassoc] at hs
    have hin := h.stepInOrder h₀ (typed_decode_left (typed_decode_left hs)) b
    have hstep := h.update h₀ os hconf hcb (by simp) (typed_decode_left hs) hin
    exact ⟨hin, ih hs hstep⟩

/-- The chunks pass the lines on that their bytes do, one per chunk. -/
def SameLines (os os' : Os) (conf : Conf) (chunks : List Str) (c : Conn) : Prop :=
  passedLines (updates os conf chunks c).world.trace =
    passedLines (updates os' conf (chunks.flatten.map fun b => [b]) c).world.trace

/-- **The cut of typed keys into chunks does not matter, where every chunk
finds them in order.** -/
theorem sameLines_of_keysInOrder (os os' : Os) (conf : Conf) (hp : conf.promptString ≠ [])
    (hcb : conf.newLineCallBack.isSome) (htab : conf.tabCallback = some telnetTabCallback)
    (keys : List (Key Byte)) (hkeys : Typed keys) (chunks : List Str)
    (hc : ∀ data ∈ chunks, IsChunk data) (hs : chunks.flatten <+: encode keys) (c : Conn)
    (h₀ : c.typing.All Printable) (h : KeysInOrder os conf chunks c) :
    SameLines os os' conf chunks c := by
  have hconf : Prompts conf := ⟨by simpa [Conf.interactivePrompt] using hp, htab⟩
  have htyped : Typed (decode chunks.flatten).1 := fun b hb =>
    hkeys b ((decode_begins hkeys hs).subset hb)
  have hfollows := updates_follows os hconf hcb h₀ (fun data hd => (hc data hd).1) htyped
    (Follows.refl c) h
  have hne : ∀ data ∈ chunks.flatten.map (fun b => [b]), data ≠ [] := by
    intro data hd
    obtain ⟨b, -, rfl⟩ := List.mem_map.mp hd
    exact List.cons_ne_nil b []
  have hbytes := updates_follows os' hconf hcb h₀ hne
    (by rw [flatten_bytes]; exact htyped) (Follows.refl c)
    (keysInOrder_bytes os' hconf hcb h₀ _ htyped (Follows.refl c))
  rw [flatten_bytes] at hbytes
  have heditor := hfollows.editor.trans hbytes.editor.symm
  exact congrArg Editor.lines heditor

/-- A line with a letter taken back, a completed line, and a letter that is
taken back before the line is recalled; two sequences are cut. -/
def helpKeys : List (Key Byte) :=
  [.char 0x61, .char 0x78, .back true, .char 0x62, .enter, .char 0x68, .char 0x65, .tab, .enter,
   .char 0x71, .back false, .up, .enter]

def helpChunks : List Str :=
  [str "ax\x7fb\r", str "\nhe", str "\t\r\nq", str "\x08\x1b[", str "A", str "\r\n"]

theorem sameLines_helpChunks :
    passedLines (updates default promptConf helpChunks
        (freshConn ⟨0, 4, {}, 0, [], [], 0, false⟩ {})).world.trace =
      [str "ab", str "help", str "help"] ∧
    SameLines default default promptConf helpChunks (freshConn ⟨0, 4, {}, 0, [], [], 0, false⟩ {}) :=
  ⟨by decide +kernel,
   sameLines_of_keysInOrder default default promptConf (by decide) rfl rfl helpKeys (by decide)
    helpChunks (by decide) (by decide) _ ⟨by simp [Conn.typing, freshConn], by simp [Conn.typing,
      Conn.editor, freshConn]⟩ (by decide +kernel)⟩

/-- An 0x7F in the chunk of a line end takes the line end with it, and the line
is not passed on. -/
theorem not_sameLines_delete :
    Typed [.char 0x61, .char 0x62, .char 0x63, .enter, .back true] ∧
      IsChunk (str "abc\r\n\x7f") ∧
      str "abc\r\n\x7f" = encode [.char 0x61, .char 0x62, .char 0x63, .enter, .back true] ∧
      passedLines (updates default promptConf [str "abc\r\n\x7f"]
        (freshConn ⟨0, 4, {}, 0, [], [], 0, false⟩ {})).world.trace = [] ∧
      passedLines (updates default promptConf ((str "abc\r\n\x7f").map fun b => [b])
        (freshConn ⟨0, 4, {}, 0, [], [], 0, false⟩ {})).world.trace = [str "abc"] ∧
      ¬ SameLines default default promptConf [str "abc\r\n\x7f"]
        (freshConn ⟨0, 4, {}, 0, [], [], 0, false⟩ {}) := by
  refine ⟨by decide, by decide, by decide, by decide +kernel, by decide +kernel, ?_⟩
  unfold SameLines
  decide +kernel

end Telnet
end RepoInit
