/-
# The reply to a status request

The services are written as the members of a JSON object, with a comma after
each, and the last character is overwritten by the closing brace. That is the
last comma if there is a service, and the text is the object (`statusBody_eq`).
If there is none it is the opening brace, and a closing brace is what remains
(`statusBody_nil`).

Key definitions: `statusValue`.
Key theorems: `statusBody_eq`, `statusReply_iff`.
-/
import RepoInit.Lib.JsonWriter
import RepoInit.ZeroMQ.Requests

namespace RepoInit
namespace ZeroMQ

open Json (Plain)

/-- The object the reply to a status request stands for. -/
def statusValue (vCheckFlag : CheckFlags) : Json.Value :=
  .object (vCheckFlag.map fun service => (service.1, .number (if service.2 then [0x31] else [0x30])))

/-- A service, with the comma behind it. -/
def statusMember (service : Str × Bool) : Str :=
  str "\"" ++ service.1 ++ str "\":" ++ (if service.2 then str "1," else str "0,")

theorem statusBody_flatMap (vCheckFlag : CheckFlags) :
    statusBody vCheckFlag =
      (Json.openBrace :: vCheckFlag.flatMap statusMember).dropLast ++ [Json.closeBrace] := by
  rw [List.flatMap]
  rfl

theorem statusBody_nil : statusBody [] = [Json.closeBrace] := rfl

theorem statusMember_eq {service : Str × Bool} (h : Plain service.1) :
    statusMember service = Json.literal service.1 ++
      [Json.colon, if service.2 then 0x31 else 0x30, Json.comma] := by
  have hquote : str "\"" = [Json.quote] := rfl
  have hcolon : str "\":" = [Json.quote, Json.colon] := rfl
  have hone : str "1," = [0x31, Json.comma] := rfl
  have hzero : str "0," = [0x30, Json.comma] := rfl
  rw [statusMember, hquote, hcolon, hone, hzero, Json.literal, Json.escaped_plain h]
  cases service.2 <;> simp

theorem statusMember_ne_nil (service : Str × Bool) : statusMember service ≠ [] := by
  have hquote : str "\"" = [Json.quote] := rfl
  simp [statusMember, hquote]

theorem flatMap_statusMember_ne_nil {vCheckFlag : CheckFlags} (h : vCheckFlag ≠ []) :
    vCheckFlag.flatMap statusMember ≠ [] := by
  obtain ⟨service, rest, rfl⟩ := List.exists_cons_of_ne_nil h
  rw [List.flatMap_cons]
  exact List.append_ne_nil_of_left_ne_nil (statusMember_ne_nil service) _

/-- The members with the last comma overwritten. -/
theorem flatMap_statusMember : ∀ {vCheckFlag : CheckFlags}, vCheckFlag ≠ [] →
    (∀ service ∈ vCheckFlag, Plain service.1) →
    (vCheckFlag.flatMap statusMember).dropLast ++ [Json.closeBrace] =
      Json.encodeMembers (vCheckFlag.map fun service =>
        (service.1, .number (if service.2 then [0x31] else [0x30])))
  | [], h, _ => absurd rfl h
  | [service], _, hplain => by
    have hservice := hplain service List.mem_cons_self
    rw [List.flatMap_singleton, statusMember_eq hservice,
      List.dropLast_append_of_ne_nil (by simp)]
    cases hflag : service.2 <;> simp [Json.encodeMembers, Json.encode, hflag]
  | service :: next :: rest, _, hplain => by
    have hservice := hplain service List.mem_cons_self
    have hrest : ∀ s ∈ next :: rest, Plain s.1 := fun s hs => hplain s (List.mem_cons_of_mem _ hs)
    have ih := flatMap_statusMember (by simp) hrest
    have hne : (next :: rest).flatMap statusMember ≠ [] := flatMap_statusMember_ne_nil (by simp)
    rw [List.flatMap_cons, List.dropLast_append_of_ne_nil hne, statusMember_eq hservice,
      List.append_assoc, ih]
    cases hflag : service.2 <;> simp [Json.encodeMembers, Json.encode, hflag]

theorem statusBody_eq {vCheckFlag : CheckFlags} (hne : vCheckFlag ≠ [])
    (hplain : ∀ service ∈ vCheckFlag, Plain service.1) :
    statusBody vCheckFlag = Json.encode (statusValue vCheckFlag) := by
  have hdrop : (Json.openBrace :: vCheckFlag.flatMap statusMember).dropLast =
      Json.openBrace :: (vCheckFlag.flatMap statusMember).dropLast :=
    List.dropLast_cons_of_ne_nil (flatMap_statusMember_ne_nil hne)
  calc statusBody vCheckFlag
      = Json.openBrace :: ((vCheckFlag.flatMap statusMember).dropLast ++ [Json.closeBrace]) := by
        rw [statusBody_flatMap, hdrop, List.cons_append]
    _ = Json.openBrace :: Json.encodeMembers (vCheckFlag.map fun service =>
          (service.1, .number (if service.2 then [0x31] else [0x30]))) := by
        rw [flatMap_statusMember hne hplain]
    _ = Json.encode (statusValue vCheckFlag) := by rw [statusValue, Json.encode]

theorem decode_statusValue (vCheckFlag : CheckFlags) :
    Json.decode (Json.encode (statusValue vCheckFlag)) = some (statusValue vCheckFlag) := by
  apply Json.decode_encode_object
  intro m hm
  obtain ⟨service, -, rfl⟩ := List.mem_map.mp hm
  cases service.2
  · exact Json.readBack_digit rfl
  · exact Json.readBack_digit rfl

theorem decode_statusBody {vCheckFlag : CheckFlags}
    (hplain : ∀ service ∈ vCheckFlag, Plain service.1) :
    Json.decode (statusBody vCheckFlag) = some (statusValue vCheckFlag) ↔ vCheckFlag ≠ [] := by
  constructor
  · rintro h rfl
    have hnone : Json.decode [Json.closeBrace] = none := rfl
    rw [statusBody_nil, hnone] at h
    cases h
  · intro hne
    rw [statusBody_eq hne hplain]
    exact decode_statusValue vCheckFlag

/-- A service without the comma behind it. -/
def statusEntry (service : Str × Bool) : Str :=
  str "\"" ++ service.1 ++ str "\":" ++ (if service.2 then str "1" else str "0")

theorem statusMember_comma (service : Str × Bool) :
    statusMember service = statusEntry service ++ str "," := by
  have hone : str "1," = str "1" ++ str "," := rfl
  have hzero : str "0," = str "0" ++ str "," := rfl
  rw [statusMember, statusEntry, hone, hzero]
  cases service.2 <;> simp

theorem isUtf8_statusEntry {service : Str × Bool} (h : Json.IsUtf8 service.1) :
    Json.IsUtf8 (statusEntry service) := by
  have hquote : Json.IsUtf8 (str "\"") := Json.isUtf8_toByteArray _
  have hcolon : Json.IsUtf8 (str "\":") := Json.isUtf8_toByteArray _
  have hflag : Json.IsUtf8 (if service.2 then str "1" else str "0") := by
    split <;> exact Json.isUtf8_toByteArray _
  exact ((hquote.append h).append hcolon).append hflag

/-- The byte that is overwritten is not part of a name. -/
theorem isUtf8_statusBody {vCheckFlag : CheckFlags}
    (h : ∀ service ∈ vCheckFlag, Json.IsUtf8 service.1) : Json.IsUtf8 (statusBody vCheckFlag) := by
  have hclose : Json.IsUtf8 [Json.closeBrace] := Json.isUtf8_toByteArray "\x7d"
  have hopen : Json.IsUtf8 [Json.openBrace] := Json.isUtf8_toByteArray "\x7b"
  rw [statusBody_flatMap]
  rcases List.eq_nil_or_concat' vCheckFlag with rfl | ⟨before, service, rfl⟩
  · exact hclose
  · have hmember : ∀ s ∈ before, Json.IsUtf8 (statusMember s) := fun s hs => by
      rw [statusMember_comma]
      exact (isUtf8_statusEntry (h s (List.mem_append_left _ hs))).append (Json.isUtf8_toByteArray _)
    have hlast := isUtf8_statusEntry (h service (by simp))
    have hdrop : (Json.openBrace :: (before ++ [service]).flatMap statusMember).dropLast =
        [Json.openBrace] ++ before.flatMap statusMember ++ statusEntry service := by
      have hcomma : str "," = [Json.comma] := rfl
      rw [List.flatMap_append, List.flatMap_singleton, statusMember_comma, hcomma,
        ← List.append_assoc, ← List.cons_append, List.dropLast_concat]
      simp
    rw [hdrop]
    exact ((hopen.append (Json.isUtf8_flatMap hmember)).append hlast).append hclose

/-- **When the status reply is the object of the services.** The body is valid
JSON, with a member for each service in their order, exactly if there is a
service. -/
theorem statusReply_iff (build : Build) {vCheckFlag : CheckFlags} (w : World) {first : Str}
    (hid : readU32 first = some STATUS_CHECK_ID)
    (hplain : ∀ service ∈ vCheckFlag, Plain service.1) :
    ∃ body, (zeroMQServerMessageCallback build vCheckFlag w [first]).reply =
        some ([intBytes ZMQ_EVENT_HANDSHAKE_SUCCEEDED, body], true) ∧
      (Json.decode body = some (statusValue vCheckFlag) ↔ vCheckFlag ≠ []) ∧
      ((∀ service ∈ vCheckFlag, Json.IsUtf8 service.1) → Json.IsUtf8 body) := by
  refine ⟨statusBody vCheckFlag, ?_, decode_statusBody hplain, isUtf8_statusBody⟩
  have hread : ([first] : List Str).head?.bind readU32 = some STATUS_CHECK_ID := hid
  unfold zeroMQServerMessageCallback
  rw [hread]
  rfl

theorem statusReply_two : ∃ body,
    (zeroMQServerMessageCallback ⟨true, str "1.0"⟩ [(str "Telnet Server", true), (str "Self", false)]
      {} [str "SCHK"]).reply = some ([intBytes ZMQ_EVENT_HANDSHAKE_SUCCEEDED, body], true) ∧
    (Json.decode body = some (statusValue [(str "Telnet Server", true), (str "Self", false)]) ↔
      [(str "Telnet Server", true), (str "Self", false)] ≠ []) ∧
    ((∀ service ∈ [(str "Telnet Server", true), (str "Self", false)], Json.IsUtf8 service.1) →
      Json.IsUtf8 body) :=
  statusReply_iff ⟨true, str "1.0"⟩ {} rfl (by decide +kernel)

/-- With no service the body is a closing brace. -/
theorem not_statusReply_nil :
    (zeroMQServerMessageCallback ⟨true, str "1.0"⟩ [] {} [str "SCHK"]).reply =
        some ([intBytes ZMQ_EVENT_HANDSHAKE_SUCCEEDED, str "\x7d"], true) ∧
      Json.decode (str "\x7d") ≠ some (statusValue []) := by
  refine ⟨rfl, ?_⟩
  have hnone : Json.decode (str "\x7d") = none := rfl
  simp [hnone]

end ZeroMQ
end RepoInit
