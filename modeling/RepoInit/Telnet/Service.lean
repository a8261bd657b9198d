/-
# The server delivers the lines of every session

What the sessions of a server pass on, by what their `recv` calls returned.
Without a prompt the lines of a session are these bytes with NULs swapped for LFs
and negotiation sequences left out, cut at CR LF, however the stream came in
pieces and whatever the server did in between (`served_split`). With a prompt
they are the lines of the line editor, where the pieces hold their keys in order
(`served_typed`). Both are what one session does alone (`aloneRun_chunks`), and
hold in every state of every run. The bytes are those of the session's own client
as long as no `recv` fails hard.

Key definitions: `bytesBy`, `chunksBy`, `cameOver`.
Key theorems: `aloneRun_chunks`, `served_split`, `served_typed`.
-/
import RepoInit.Telnet.Connections
import RepoInit.Telnet.Interactive

namespace RepoInit
namespace Telnet

open Framing LineEditor

/-- The bytes an answer brings. -/
def Recv.data : Recv → Str
  | .fail _ => []
  | .bytes data => data

/-- What the `recv` calls of the session returned, oldest first. -/
def bytesBy (id : ℕ) (trace : List Event) : Str := ((receivedBy id trace).map Recv.data).flatten

/-- The pieces it came in. -/
def chunksOf (answers : List Recv) : List Str := (answers.map Recv.data).filter (· ≠ [])

def chunksBy (id : ℕ) (trace : List Event) : List Str := chunksOf (receivedBy id trace)

/-- What came over the connection the session was accepted on. -/
def cameOver (id : ℕ) (trace : List Event) : Str := ((readFrom id trace).map Recv.data).flatten

theorem chunksOf_flatten (answers : List Recv) :
    (chunksOf answers).flatten = (answers.map Recv.data).flatten := by
  unfold chunksOf
  induction answers with
  | nil => rfl
  | cons answer answers ih =>
    by_cases h : answer.data = []
    · simpa [h] using ih
    · simpa [h] using ih

/-! ### A session alone -/

section Alone

variable (os : Os) {conf : Conf} {i : Bool} (hconf : Editing i conf)

theorem Alike.refl (c : Conn) : Alike [] [] c c := ⟨rfl, rfl, rfl, _, rfl, rfl⟩

/-- An answer without bytes changes nothing of what is typed. -/
theorem update_empty {p p' : List Str} {c c' : Conn} (h : Alike p p' c c') {answer : Recv}
    (hempty : answer.data = []) : Alike p p' (TelnetSession.update os conf answer c) c' := by
  unfold TelnetSession.update
  dsimp only
  cases answer with
  | fail errno =>
    dsimp only
    split <;> exact ⟨h.buffer, h.history, h.historyCursor, h.lines⟩
  | bytes data =>
    dsimp only
    rw [if_neg fun hne => hne hempty]
    exact ⟨h.buffer, h.history, h.historyCursor, h.lines⟩

include hconf

/-- Alone, the answers without bytes can be left out. -/
theorem aloneRun_chunks (answers : List Recv) :
    Alike [] [] (aloneRun os conf answers)
      (updates os conf (chunksOf answers) (freshConn { id := 0, socket := 0 } {})) := by
  induction answers using List.reverseRecOn with
  | nil => exact ⟨rfl, rfl, rfl, [], rfl, rfl⟩
  | append_singleton answers answer ih =>
    rw [aloneRun_concat]
    have hchunks : chunksOf (answers ++ [answer]) =
        chunksOf answers ++ if answer.data = [] then [] else [answer.data] := by
      by_cases h : answer.data = [] <;> simp [chunksOf, h]
    rw [hchunks]
    split
    · rename_i hempty
      rw [List.append_nil]
      exact update_empty os ih hempty
    · rename_i hne
      cases answer with
      | fail errno => exact absurd rfl hne
      | bytes data =>
        have hupdates : updates os conf (chunksOf answers ++ [data])
            (freshConn { id := 0, socket := 0 } {}) =
            TelnetSession.update os conf (.bytes data)
              (updates os conf (chunksOf answers) (freshConn { id := 0, socket := 0 } {})) := by
          simp [updates]
        show Alike [] [] _ (updates os conf (chunksOf answers ++ [data]) _)
        rw [hupdates]
        exact update_alike os os hconf hconf ih (.bytes data)

end Alone

/-- Without a prompt the pieces are fed to the buffer, which is the whole
stream fed at once. -/
theorem aloneRun_split (os : Os) {conf : Conf} (hconf : Editing false conf) (answers : List Recv) :
    (passedLines (aloneRun os conf answers).world.trace, (aloneRun os conf answers).session.buffer) =
      split crlf (skip isNVT 2 (replaceNull (answers.map Recv.data).flatten)) := by
  have hfeed : (passedLines (aloneRun os conf answers).world.trace,
      (aloneRun os conf answers).session.buffer) =
      feed isNVT 2 crlf ([], []) (replaceNull (answers.map Recv.data).flatten) := by
    induction answers using List.reverseRecOn with
    | nil =>
      show ([], []) = feed isNVT 2 crlf ([], []) []
      decide +kernel
    | append_singleton answers answer ih =>
      rw [aloneRun_concat, List.map_append, List.flatten_append]
      by_cases hempty : answer.data = []
      · obtain ⟨hbuffer, -, -, new, hnew, hnew'⟩ := @update_empty os conf [] [] _ _
          (Alike.refl (aloneRun os conf answers)) answer hempty
        rw [List.nil_append] at hnew hnew'
        rw [hnew, ← hnew', hbuffer, ih]
        simp [hempty]
      · cases answer with
        | fail errno => exact absurd rfl hempty
        | bytes data =>
          have hstep := @update_feed os conf hconf.prompt hconf.newLine data hempty
            (aloneRun os conf answers)
          simp only [Conn.framed, Prod.mk.injEq] at hstep
          have hsplit : replaceNull ((answers.map Recv.data).flatten ++
              ([Recv.bytes data].map Recv.data).flatten) =
              replaceNull (answers.map Recv.data).flatten ++ replaceNull data := by
            simp [replaceNull, Recv.data]
          rw [hsplit, ← feed_feed crlf_ne_nil isNVT_crlf (k := 2) (by decide), ← ih, feed_fst,
            hstep.1, hstep.2.1]
  rw [hfeed]
  rfl

/-! ### The server -/

section Served

variable (os : Os) (past : List Conf) (conf : Conf)

/-- **Without a prompt every session's stream is cut into lines**, in every state
of every run: it passed on the lines of all that its `recv` calls returned, and
holds the rest. If none failed hard and `accept` only used closed numbers again,
that is what came over its own connection. -/
theorem served_split (hconfs : ∀ c ∈ conf :: past, c.promptString = [] ∧ c.newLineCallBack.isSome)
    (k : ℕ) :
    (∀ id, linesOf id (loopState os past conf k).2.world.trace =
        (split crlf (skip isNVT 2
          (replaceNull (bytesBy id (loopState os past conf k).2.world.trace)))).1) ∧
      (∀ s ∈ (loopState os past conf k).2.sessions,
        s.buffer = (split crlf (skip isNVT 2
          (replaceNull (bytesBy s.id (loopState os past conf k).2.world.trace)))).2) ∧
      (PosixAlloc (loopState os past conf k).2.world.trace →
        NoHardError (loopState os past conf k).2.world.trace →
        ∀ id, bytesBy id (loopState os past conf k).2.world.trace =
          cameOver id (loopState os past conf k).2.world.trace) := by
  have hediting : ∀ c ∈ conf :: conf :: past, Editing false c := by
    intro c hc
    obtain ⟨hprompt, hcb⟩ := hconfs c (by simpa using hc)
    exact ⟨by simp [Conf.interactivePrompt, hprompt], hcb, fun h => absurd h (by decide)⟩
  obtain ⟨halone, hlines⟩ := loopState_apart os os hediting k
  have hsplit := aloneRun_split os (hediting conf (by simp))
  refine ⟨fun id => ?_, fun s hs => ?_, fun hposix hsoft id => ?_⟩
  · rw [hlines]
    exact congrArg Prod.fst (hsplit _)
  · rw [(halone s hs).buffer]
    exact congrArg Prod.snd (hsplit _)
  · have hown := readFrom_eq_receivedBy os (some {}) (.turns past conf k) hposix hsoft id
    rw [cameOver]
    exact congrArg (fun answers => (answers.map Recv.data).flatten) hown.symm

/-- **With a prompt every session's keys make the lines of the line editor**, for
each session whose pieces hold its keys in order; its buffer is the line of the
editor and the first bytes of a key not complete. -/
theorem served_typed
    (hconfs : ∀ c ∈ conf :: past, c.promptString ≠ [] ∧ c.newLineCallBack.isSome ∧
      c.tabCallback = some telnetTabCallback) (k : ℕ) (id : ℕ) (keys : List (Key Byte))
    (hkeys : Typed keys)
    (hs : bytesBy id (loopState os past conf k).2.world.trace <+: encode keys)
    (hin : KeysInOrder default conf (chunksBy id (loopState os past conf k).2.world.trace)
      (freshConn { id := 0, socket := 0 } {})) :
    linesOf id (loopState os past conf k).2.world.trace =
        (typeKeys blank (decode (bytesBy id (loopState os past conf k).2.world.trace)).1).lines ∧
      ∀ s ∈ (loopState os past conf k).2.sessions, s.id = id →
        s.buffer =
          (typeKeys blank (decode (bytesBy id (loopState os past conf k).2.world.trace)).1).text ++
            (decode (bytesBy id (loopState os past conf k).2.world.trace)).2 := by
  have hediting : ∀ c ∈ conf :: conf :: past, Editing true c := by
    intro c hc
    obtain ⟨hprompt, hcb, htab⟩ := hconfs c (by simpa using hc)
    exact ⟨by simpa [Conf.interactivePrompt] using hprompt, hcb, fun _ => htab⟩
  have hself := hediting conf (by simp)
  obtain ⟨hbuffers, hlines⟩ := loopState_apart os default hediting k
  have hbytes : bytesBy id (loopState os past conf k).2.world.trace =
      (chunksBy id (loopState os past conf k).2.world.trace).flatten := (chunksOf_flatten _).symm
  rw [hbytes] at hs ⊢
  set chunks := chunksBy id (loopState os past conf k).2.world.trace
  have htyped : Typed (decode chunks.flatten).1 :=
    fun b hb => hkeys b ((decode_begins hkeys hs).subset hb)
  have hne : ∀ data ∈ chunks, data ≠ [] := fun data hd => by
    simpa using (List.mem_filter.mp hd).2
  have hfresh : (freshConn { id := 0, socket := 0 } {}).typing.All Printable :=
    ⟨by simp [Conn.typing, freshConn], by simp [Conn.typing, Conn.editor, freshConn]⟩
  have hfollows := updates_follows default ⟨hself.prompt, hself.tab rfl⟩ hself.newLine hfresh hne htyped
    (Follows.refl _) hin
  rw [List.nil_append] at hfollows
  -- a session alone does the same with the answers that bring nothing
  obtain ⟨hbuffer, -, -, new, hnew, hnew'⟩ := aloneRun_chunks default hself
    (receivedBy id (loopState os past conf k).2.world.trace)
  rw [List.nil_append] at hnew hnew'
  refine ⟨?_, fun s hmem hid => ?_⟩
  · rw [hlines, hnew, ← hnew']
    exact congrArg Editor.lines hfollows.editor
  · have halone := (hbuffers s hmem).buffer
    rw [hid] at halone
    rw [halone, hbuffer]
    exact hfollows.buffer

end Served

/-- A newline callback that does nothing, and no prompt. -/
def quietConf : Conf := { (default : Conf) with newLineCallBack := some fun _ _ _ => ([], true) }

theorem served_split_two :
    linesOf 0 (loopState twoClientsOs [quietConf, quietConf] quietConf 2).2.world.trace = [str "abc"] ∧
      (∀ id, linesOf id (loopState twoClientsOs [quietConf, quietConf] quietConf 2).2.world.trace =
        (split crlf (skip isNVT 2 (replaceNull (bytesBy id
          (loopState twoClientsOs [quietConf, quietConf] quietConf 2).2.world.trace)))).1) ∧
      (∀ s ∈ (loopState twoClientsOs [quietConf, quietConf] quietConf 2).2.sessions,
        s.buffer = (split crlf (skip isNVT 2 (replaceNull (bytesBy s.id
          (loopState twoClientsOs [quietConf, quietConf] quietConf 2).2.world.trace)))).2) ∧
      (PosixAlloc (loopState twoClientsOs [quietConf, quietConf] quietConf 2).2.world.trace →
        NoHardError (loopState twoClientsOs [quietConf, quietConf] quietConf 2).2.world.trace →
        ∀ id, bytesBy id (loopState twoClientsOs [quietConf, quietConf] quietConf 2).2.world.trace =
          cameOver id (loopState twoClientsOs [quietConf, quietConf] quietConf 2).2.world.trace) := by
  refine ⟨by decide +kernel,
    served_split twoClientsOs [quietConf, quietConf] quietConf (fun c hc => ?_) 2⟩
  obtain rfl : c = quietConf := by simpa using hc
  exact ⟨rfl, rfl⟩

/-- The session reads `a` of the client that its number was given to. -/
example :
    let trace : List Event := [.recv 0 5 (.bytes (str "a")), .accept 1 5 true, .close 0 5,
      .recv 0 5 (.fail ECONNRESET), .accept 0 5 true]
    bytesBy 0 trace = str "a" ∧ cameOver 0 trace = [] ∧ cameOver 1 trace = str "a" := by
  decide +kernel

theorem served_typed_two :
    bytesBy 0 (loopState twoClientsOs [promptConf, promptConf] promptConf 2).2.world.trace =
        str "abc" ++ crlf ++ str "ab" ∧
      linesOf 0 (loopState twoClientsOs [promptConf, promptConf] promptConf 2).2.world.trace =
        (typeKeys blank (decode (bytesBy 0
          (loopState twoClientsOs [promptConf, promptConf] promptConf 2).2.world.trace)).1).lines ∧
      ∀ s ∈ (loopState twoClientsOs [promptConf, promptConf] promptConf 2).2.sessions, s.id = 0 →
        s.buffer = (typeKeys blank (decode (bytesBy 0
          (loopState twoClientsOs [promptConf, promptConf] promptConf 2).2.world.trace)).1).text ++
            (decode (bytesBy 0
              (loopState twoClientsOs [promptConf, promptConf] promptConf 2).2.world.trace)).2 := by
  have hbytes : bytesBy 0 (loopState twoClientsOs [promptConf, promptConf] promptConf 2).2.world.trace =
      str "abc" ++ crlf ++ str "ab" := by decide +kernel
  refine ⟨hbytes, served_typed twoClientsOs [promptConf, promptConf] promptConf (fun c hc => ?_) 2 0
    [.char 0x61, .char 0x62, .char 0x63, .enter, .char 0x61, .char 0x62] (by decide) ?_
    (by decide +kernel)⟩
  · obtain rfl : c = promptConf := by simpa using hc
    exact ⟨by decide, rfl, rfl⟩
  · rw [hbytes]
    decide

end Telnet
end RepoInit
