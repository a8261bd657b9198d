/-
# What Sentry is told

The sink hands warnings, errors and critical messages to Sentry, each cut at its
first NUL, and nothing without an address (`captured_eq`). The network context has a
member for each name and kind of address of the interfaces that run and are no
loopbacks. A later interface takes the place of an earlier one of the same name and
kind, so that of several addresses the last is told (`networkContext_lookup`). The
text of a MAC address fits into its buffer and tells its six bytes
(`macText_injective`).

Key definitions: `SentrySink`, `Ifaddrs`, `setNetworkContext`, `macText`.
Key theorems: `captured_eq`, `networkContext_lookup`, `macText_injective`.
-/
import Mathlib.Data.Finmap
import Mathlib.Data.List.Induction
import RepoInit.Basic
import RepoInit.Logging.Loki

namespace RepoInit
namespace Sentry

/-! ### The sink -/

/-- `sentry_level_t`, as far as it is used. -/
inductive SentryLevel where
  | warning | error | fatal
  deriving DecidableEq, Repr

/-- The sink, and the events that were captured. -/
structure SentrySink where
  sentryAvailable : Bool := false
  captured : List (SentryLevel × Str) := []
  deriving DecidableEq, Repr

/-- The constructor. -/
def sentryApiSink (sentryAddress : Str) : SentrySink :=
  if sentryAddress = [] then {} else { sentryAvailable := true }

/-- `sentry_capture_event`, with a new message event. -/
def capture (level : SentryLevel) (payload : Str) (sink : SentrySink) : SentrySink :=
  { sink with captured := sink.captured ++ [(level, cString payload)] }

def sink_it_ (msg : Loki.LogMsg) (sink : SentrySink) : SentrySink :=
  if !sink.sentryAvailable then sink
  else
    match msg.level with
    | .warn => capture .warning msg.payload sink
    | .err => capture .error msg.payload sink
    | .critical => capture .fatal msg.payload sink
    | .trace | .debug | .info | .off => sink

/-- The event of a message. -/
def eventOf (msg : Loki.LogMsg) : Option (SentryLevel × Str) :=
  match msg.level with
  | .warn => some (.warning, cString msg.payload)
  | .err => some (.error, cString msg.payload)
  | .critical => some (.fatal, cString msg.payload)
  | _ => none

/-- The events of a run are those of its messages, in order. -/
theorem captured_eq (sentryAddress : Str) (msgs : List Loki.LogMsg) :
    (msgs.foldl (fun sink msg => sink_it_ msg sink) (sentryApiSink sentryAddress)).captured =
      if sentryAddress = [] then [] else msgs.filterMap eventOf := by
  have hrun : ∀ sink : SentrySink,
      (msgs.foldl (fun sink msg => sink_it_ msg sink) sink).captured =
        sink.captured ++ if sink.sentryAvailable then msgs.filterMap eventOf else [] := by
    induction msgs with
    | nil => simp
    | cons msg msgs ih =>
      intro sink
      rw [List.foldl_cons, ih]
      cases hsink : sink.sentryAvailable with
      | false => simp [sink_it_, hsink]
      | true => cases hlevel : msg.level <;> simp [sink_it_, hsink, hlevel, capture, eventOf]
  rw [hrun]
  by_cases h : sentryAddress = []
  · simp [sentryApiSink, h]
  · simp [sentryApiSink, h]

/-! ### MAC addresses -/

def hexDigit (n : ℕ) : Byte := if n < 10 then UInt8.ofNat (0x30 + n) else UInt8.ofNat (0x57 + n)

/-- `{:02x}` -/
def hex2 (b : Byte) : Str := [hexDigit (b.toNat / 16), hexDigit (b.toNat % 16)]

/-- Six bytes of `sll_addr`. -/
def macText (addr : Vector Byte 8) : Str :=
  hex2 addr[0] ++ 0x3A :: hex2 addr[1] ++ 0x3A :: hex2 addr[2] ++ 0x3A :: hex2 addr[3] ++
    0x3A :: hex2 addr[4] ++ 0x3A :: hex2 addr[5]

def MAC_LEN : ℕ := 18

/-- There is room for a NUL behind it. -/
theorem length_macText (addr : Vector Byte 8) : (macText addr).length + 1 = MAC_LEN := rfl

theorem hexDigit_injective : ∀ m < 16, ∀ n < 16, hexDigit m = hexDigit n → m = n := by decide

theorem hex2_injective {b c : Byte} (h : hex2 b = hex2 c) : b = c := by
  have hb := b.toNat_lt
  have hc := c.toNat_lt
  obtain ⟨hhigh, hlow⟩ : hexDigit (b.toNat / 16) = hexDigit (c.toNat / 16) ∧
      hexDigit (b.toNat % 16) = hexDigit (c.toNat % 16) := by simpa [hex2] using h
  have hdiv := hexDigit_injective _ (by omega) _ (by omega) hhigh
  have hmod := hexDigit_injective _ (by omega) _ (by omega) hlow
  exact UInt8.toNat_inj.mp (by omega)

/-- Addresses with the same text are the same. -/
theorem macText_injective {addr addr' : Vector Byte 8} (h : macText addr = macText addr') :
    ∀ i (hi : i < 6), addr[i] = addr'[i] := by
  have hbytes : ∀ b₀ b₁ b₂ b₃ b₄ b₅ c₀ c₁ c₂ c₃ c₄ c₅ : Byte,
      hex2 b₀ ++ 0x3A :: hex2 b₁ ++ 0x3A :: hex2 b₂ ++ 0x3A :: hex2 b₃ ++ 0x3A :: hex2 b₄ ++
          0x3A :: hex2 b₅ =
        hex2 c₀ ++ 0x3A :: hex2 c₁ ++ 0x3A :: hex2 c₂ ++ 0x3A :: hex2 c₃ ++ 0x3A :: hex2 c₄ ++
          0x3A :: hex2 c₅ →
      hex2 b₀ = hex2 c₀ ∧ hex2 b₁ = hex2 c₁ ∧ hex2 b₂ = hex2 c₂ ∧ hex2 b₃ = hex2 c₃ ∧
        hex2 b₄ = hex2 c₄ ∧ hex2 b₅ = hex2 c₅ := by
    intro b₀ b₁ b₂ b₃ b₄ b₅ c₀ c₁ c₂ c₃ c₄ c₅ h
    simpa [hex2, and_assoc] using h
  obtain ⟨h₀, h₁, h₂, h₃, h₄, h₅⟩ := hbytes _ _ _ _ _ _ _ _ _ _ _ _ h
  intro i hi
  match i with
  | 0 => exact hex2_injective h₀
  | 1 => exact hex2_injective h₁
  | 2 => exact hex2_injective h₂
  | 3 => exact hex2_injective h₃
  | 4 => exact hex2_injective h₄
  | 5 => exact hex2_injective h₅

/-! ### The network context -/

inductive AddressKind where
  | ipv4 | ipv6 | mac
  deriving DecidableEq, Repr

def AddressKind.suffix : AddressKind → Str
  | .ipv4 => str ".ipv4"
  | .ipv6 => str ".ipv6"
  | .mac => str ".mac"

/-- `sockaddr`, with what `inet_ntop` writes for an address of the internet. -/
inductive SockAddr where
  | inet (host : Str)
  | inet6 (host : Str)
  | packet (addr : Vector Byte 8)
  | other

def SockAddr.kind : SockAddr → Option AddressKind
  | .inet _ => some .ipv4
  | .inet6 _ => some .ipv6
  | .packet _ => some .mac
  | .other => none

def SockAddr.text : SockAddr → Str
  | .inet host | .inet6 host => cString host
  | .packet addr => cString (macText addr)
  | .other => []

/-- `ifaddrs`, with the flags `IFF_RUNNING` and `IFF_LOOPBACK`. -/
structure Ifaddrs where
  name : Str
  /-- It is a C string. -/
  name_noNul : 0 ∉ name
  running : Bool
  loopback : Bool
  addr : Option SockAddr

abbrev Context := Finmap fun _ : Str => Str

/-- An iteration over the interfaces. -/
def setInterface (context : Context) (ifa : Ifaddrs) : Context :=
  match ifa.addr with
  | none => context
  | some addr =>
    if !ifa.running || ifa.loopback then context
    else
      match addr with
      | .inet host => context.insert (cString (ifa.name ++ str ".ipv4")) (cString host)
      | .inet6 host => context.insert (cString (ifa.name ++ str ".ipv6")) (cString host)
      | .packet addr => context.insert (cString (ifa.name ++ str ".mac")) (cString (macText addr))
      | .other => context

/-- The context after the iterations. -/
def networkContext (ifs : List Ifaddrs) : Context := ifs.foldl setInterface ∅

/-- `setNetworkContext`: the context that is set, unless `getifaddrs` fails. -/
def setNetworkContext (ifaddr : Option (List Ifaddrs)) : Option Context :=
  ifaddr.map networkContext

/-- The interface is told of under this name, with an address of this kind. -/
def Ifaddrs.Tells (name : Str) (kind : AddressKind) (ifa : Ifaddrs) : Prop :=
  ifa.name = name ∧ ifa.running = true ∧ ifa.loopback = false ∧
    ifa.addr.bind SockAddr.kind = some kind

instance (name : Str) (kind : AddressKind) : DecidablePred (Ifaddrs.Tells name kind) :=
  fun _ => inferInstanceAs (Decidable (_ ∧ _ ∧ _ ∧ _))

/-- The key tells the name and the kind. -/
theorem key_injective {name name' : Str} {kind kind' : AddressKind}
    (h : name ++ kind.suffix = name' ++ kind'.suffix) : name = name' ∧ kind = kind' := by
  have hlast : ∀ (n : Str) (k : AddressKind), (n ++ k.suffix).getLast? = k.suffix.getLast? := by
    intro n k
    have hne : k.suffix ≠ [] := by cases k <;> decide
    exact List.getLast?_append_of_ne_nil n hne
  have hkind : kind = kind' := by
    have hbyte := congrArg List.getLast? h
    rw [hlast, hlast] at hbyte
    revert hbyte
    cases kind <;> cases kind' <;> decide
  subst hkind
  exact ⟨List.append_cancel_right h, rfl⟩

theorem cString_key (ifa : Ifaddrs) (kind : AddressKind) :
    cString (ifa.name ++ kind.suffix) = ifa.name ++ kind.suffix := by
  refine cString_of_notMem fun h => ?_
  rcases List.mem_append.mp h with h | h
  · exact ifa.name_noNul h
  · revert h
    cases kind <;> decide

/-- What an iteration does: it puts the text of an address under its key, or
nothing. -/
theorem setInterface_cases (context : Context) (ifa : Ifaddrs) :
    (∃ kind addr, ifa.Tells ifa.name kind ∧ ifa.addr = some addr ∧
        setInterface context ifa = context.insert (ifa.name ++ kind.suffix) addr.text) ∨
      ((∀ name kind, ¬ ifa.Tells name kind) ∧ setInterface context ifa = context) := by
  unfold setInterface Ifaddrs.Tells
  cases haddr : ifa.addr with
  | none => exact .inr ⟨by simp, rfl⟩
  | some addr =>
    cases hrunning : ifa.running with
    | false => exact .inr ⟨by simp, by simp⟩
    | true =>
      cases hloopback : ifa.loopback with
      | true => exact .inr ⟨by simp, by simp⟩
      | false =>
        cases addr with
        | inet host => exact .inl ⟨.ipv4, _, ⟨rfl, rfl, rfl, rfl⟩, rfl, by
            rw [← cString_key ifa .ipv4]; rfl⟩
        | inet6 host => exact .inl ⟨.ipv6, _, ⟨rfl, rfl, rfl, rfl⟩, rfl, by
            rw [← cString_key ifa .ipv6]; rfl⟩
        | packet addr => exact .inl ⟨.mac, _, ⟨rfl, rfl, rfl, rfl⟩, rfl, by
            rw [← cString_key ifa .mac]; rfl⟩
        | other => exact .inr ⟨by simp [SockAddr.kind], by simp⟩

/-- Under a name and a kind there is the last such address, and nothing else. -/
theorem lookup_networkContext (ifs : List Ifaddrs) :
    (∀ name kind, (networkContext ifs).lookup (name ++ AddressKind.suffix kind) =
        ((ifs.filter fun ifa => ifa.Tells name kind).getLast?.bind Ifaddrs.addr).map SockAddr.text) ∧
      ∀ key ∈ networkContext ifs, ∃ ifa ∈ ifs, ∃ kind, ifa.Tells ifa.name kind ∧
        key = ifa.name ++ AddressKind.suffix kind := by
  induction ifs using List.reverseRecOn with
  | nil =>
    refine ⟨fun _ _ => by simp [networkContext], fun key hkey => ?_⟩
    exact absurd hkey Finmap.notMem_empty
  | append_singleton ifs ifa ih =>
    obtain ⟨hlookup, hkeys⟩ := ih
    have hstep : networkContext (ifs ++ [ifa]) = setInterface (networkContext ifs) ifa := by
      simp [networkContext]
    rw [hstep]
    generalize networkContext ifs = context at hlookup hkeys
    rcases setInterface_cases context ifa with ⟨kind, addr, htells, haddr, hset⟩ | ⟨hnone, hset⟩
    · rw [hset]
      refine ⟨fun name kind' => ?_, fun key hkey => ?_⟩
      · by_cases hkey : name ++ kind'.suffix = ifa.name ++ kind.suffix
        · obtain ⟨rfl, rfl⟩ := key_injective hkey
          rw [Finmap.lookup_insert]
          simp [List.filter_append, htells, haddr]
        · have hno : ¬ ifa.Tells name kind' := by
            rintro ⟨rfl, -, -, hkind⟩
            obtain ⟨-, -, -, hkind'⟩ := htells
            rw [hkind] at hkind'
            exact hkey (by rw [Option.some.inj hkind'])
          rw [Finmap.lookup_insert_of_ne _ hkey, hlookup]
          simp [List.filter_append, hno]
      · rw [Finmap.mem_insert] at hkey
        rcases hkey with rfl | hkey
        · exact ⟨ifa, by simp, kind, htells, rfl⟩
        · obtain ⟨ifa', hmem, h⟩ := hkeys key hkey
          exact ⟨ifa', List.mem_append_left _ hmem, h⟩
    · rw [hset]
      refine ⟨fun name kind' => ?_, fun key hkey => ?_⟩
      · rw [hlookup]
        simp [List.filter_append, hnone name kind']
      · obtain ⟨ifa', hmem, h⟩ := hkeys key hkey
        exact ⟨ifa', List.mem_append_left _ hmem, h⟩

/-- **Of several addresses the last is told.** In the context that is set there is,
under a name and a kind, the last address of this kind that an interface of this name
has, of those that run and are no loopbacks, and there are no other members. -/
theorem networkContext_lookup (ifs : List Ifaddrs) :
    ∃ context, setNetworkContext (some ifs) = some context ∧
      (∀ name kind, context.lookup (name ++ AddressKind.suffix kind) =
        ((ifs.filter fun ifa => ifa.Tells name kind).getLast?.bind Ifaddrs.addr).map SockAddr.text) ∧
      ∀ key ∈ context, ∃ ifa ∈ ifs, ∃ kind, ifa.Tells ifa.name kind ∧
        key = ifa.name ++ AddressKind.suffix kind :=
  ⟨networkContext ifs, rfl, lookup_networkContext ifs⟩

example : (networkContext [⟨str "eth0", by decide, true, false, some (.inet (str "10.0.0.1"))⟩,
    ⟨str "eth0", by decide, true, false, some (.inet (str "10.0.0.2"))⟩]).lookup (str "eth0.ipv4") =
      some (str "10.0.0.2") := by
  decide +kernel

end Sentry
end RepoInit
