import RwModbus.Library.Runs
import RwModbus.OpcServer

/-!
# The client's connection

`OpcClient_c` as far as `_connect` sees it. Whether the connection is up is kept in
`scConnect`, apart from the client object that it is about; `init` and `stop` change
only the object. What `UA_Client_connect` answers is a parameter of each call.
-/
namespace RwModbus.OpcClient
open Registers Opc Runs

/-- `UA_Client`; `connected` is ghost data: `UA_Client_connect` has succeeded on it. -/
structure UaClient where
  connected : Bool := false
deriving DecidableEq, Repr

def statusBad : StatusCode := 0x80000000

/-- `OpcClient_c`; `muxClient` is there or not. -/
structure Client where
  uaUrl : Option Name := none
  muxClient : Bool := false
  uaClient : Option UaClient := none
  scConnect : StatusCode := statusBad
deriving DecidableEq, Repr

namespace Client

/-- `UA_Client_connect`. -/
def uaConnect (answer : StatusCode) (k : UaClient) : UaClient :=
  if answer = statusGood then { k with connected := true } else k

/-- `_connect`. A client that is left over is deleted before a new one is made. -/
def connect (answer : StatusCode) (c : Client) : Client × Bool :=
  if c.scConnect ≠ statusGood then
    let c := { c with uaClient := some {} }
    let c := { c with uaClient := c.uaClient.map (uaConnect answer), scConnect := answer }
    if c.scConnect ≠ statusGood then ({ c with uaClient := none }, false) else (c, true)
  else (c, true)

/-- `init()`. -/
def init (c : Client) : Client :=
  if c.uaUrl = none then c else { c with muxClient := true, uaClient := some {} }

/-- `init(url)`. -/
def initUrl (url : Option Name) (c : Client) : Client :=
  init (if url ≠ none then { c with uaUrl := url } else c)

def stop (c : Client) : Client := { c with uaClient := none, muxClient := false }

end Client

inductive Event where
  | initUrl (url : Option Name)
  | init
  | stop
  /-- `Read`, `Write`, `ReadNumber` or `get_uatype`. -/
  | call (answer : StatusCode)
deriving DecidableEq, Repr

/-- A call locks the mutex first, so without one it does not get to `_connect`. -/
def step (c : Client) : Event → Client
  | .initUrl url => c.initUrl url
  | .init => c.init
  | .stop => c.stop
  | .call answer => if c.muxClient then (c.connect answer).1 else c

/-- The object that the constructor makes. -/
def start (url : Option Name) : Client := { uaUrl := url }

/-- There is a client and it is connected. -/
def Up (c : Client) : Prop := c.uaClient = some { connected := true }

/-- If `_connect` returns true in this step, the client is connected. -/
def Sound (c : Client) : Event → Prop
  | .call answer => c.muxClient = true → (c.connect answer).2 = true → Up (c.connect answer).1
  | _ => True

/-- No new client is made while `scConnect` is good. -/
def Renewable (c : Client) : Event → Prop
  | .initUrl url => c.scConnect = statusGood → url = none ∧ c.uaUrl = none
  | .init => c.scConnect = statusGood → c.uaUrl = none
  | _ => True

instance (c : Client) : (e : Event) → Decidable (Renewable c e)
  | .initUrl _ => inferInstanceAs (Decidable (_ → _))
  | .init => inferInstanceAs (Decidable (_ → _))
  | .stop => inferInstanceAs (Decidable True)
  | .call _ => inferInstanceAs (Decidable True)

section
variable {c : Client}

theorem connect_of_good (h : c.scConnect = statusGood) (answer : StatusCode) :
    c.connect answer = (c, true) := by
  rw [Client.connect, if_neg (not_not.mpr h)]

/-- A connection that comes up does so on the new client. -/
theorem connect_of_bad (h : c.scConnect ≠ statusGood) (answer : StatusCode) :
    c.connect answer = if answer = statusGood
      then ({ c with uaClient := some { connected := true }, scConnect := answer }, true)
      else ({ c with uaClient := none, scConnect := answer }, false) := by
  rw [Client.connect, if_pos h]
  by_cases hans : answer = statusGood <;> simp [hans, Client.uaConnect]

/-- While there is a mutex, a good `scConnect` is about the client that there is. -/
def Good (c : Client) : Prop := c.muxClient = true → c.scConnect = statusGood → Up c

theorem Good.sound (h : Good c) (e : Event) : Sound c e := by
  cases e with
  | call answer =>
      intro hmux hret
      by_cases hsc : c.scConnect = statusGood
      · rw [connect_of_good hsc]
        exact h hmux hsc
      · rw [connect_of_bad hsc] at hret ⊢
        split_ifs at hret ⊢
        exact rfl
  | initUrl | init | stop => trivial

theorem good_of_bad (h : c.scConnect ≠ statusGood) : Good c := fun _ hsc => absurd hsc h

theorem Good.init (h : Good c) (hc : c.scConnect = statusGood → c.uaUrl = none) : Good c.init := by
  unfold Client.init
  split_ifs with hurl
  · exact h
  · exact good_of_bad fun hsc => hurl (hc hsc)

theorem Good.step (h : Good c) {e : Event} (hc : Renewable c e) : Good (step c e) := by
  cases e with
  | initUrl url =>
      rw [OpcClient.step, Client.initUrl]
      split_ifs with hurl
      · exact Good.init (c := { c with uaUrl := url }) h fun hsc => (hc hsc).1
      · exact h.init fun hsc => (hc hsc).2
  | init => exact h.init hc
  | stop => exact fun hmux _ => absurd hmux Bool.false_ne_true
  | call answer =>
      rw [OpcClient.step]
      split_ifs with hmux
      · by_cases hsc : c.scConnect = statusGood
        · rwa [connect_of_good hsc]
        · rw [connect_of_bad hsc]
          split_ifs with hans
          · exact fun _ _ => rfl
          · exact good_of_bad hans
      · exact h

theorem init_of_url (h : c.uaUrl ≠ none) :
    c.init = { c with muxClient := true, uaClient := some {} } := if_neg h

/-- A client made while `scConnect` is good is taken for connected. -/
theorem not_sound_renewed {e : Event} (hc : ¬ Renewable c e) (answer : StatusCode) :
    ¬ Sound (step c e) (.call answer) := by
  have hnew : ∀ c' : Client, c'.scConnect = statusGood → c'.uaUrl ≠ none →
      ¬ Sound c'.init (.call answer) := by
    intro c' hsc hurl hsound
    have hsc' : c'.init.scConnect = statusGood := by rwa [init_of_url hurl]
    rw [Sound, connect_of_good hsc', init_of_url hurl] at hsound
    have hup := hsound rfl rfl
    simp [Up] at hup
  cases e with
  | initUrl url =>
      obtain ⟨hsc, hurl⟩ := Classical.not_imp.mp hc
      rw [step, Client.initUrl]
      split_ifs with h
      · exact hnew _ hsc h
      · exact hnew _ hsc fun hold => hurl ⟨not_not.mp h, hold⟩
  | init =>
      obtain ⟨hsc, hurl⟩ := Classical.not_imp.mp hc
      exact hnew c hsc hurl
  | stop | call => exact absurd trivial hc

end

/-- In every run that makes no client while `scConnect` is good, `_connect` tells the
truth; after a run that makes one, the next call finds it wrong. -/
theorem along_sound (url : Option Name) (es : List Event) :
    (Along step Renewable (start url) es → Along step Sound (start url) es) ∧
    ∀ e, ¬ Renewable (run step (start url) es) e →
      ∀ answer, ¬ Along step Sound (start url) (es ++ [e, .call answer]) := by
  have hbad : statusBad ≠ statusGood := by decide
  have hstart : Good (start url) := good_of_bad hbad
  constructor
  · intro h
    have hsound : ∀ c e, Good c → Renewable c e → (Sound c e ↔ Renewable c e) :=
      fun c e hg hc => iff_of_true (hg.sound e) hc
    exact (along_congr hsound (fun c e hg hc _ => hg.step hc) h hstart).mpr h
  · intro e he answer h
    have htail := (along_append.mp h).2
    exact not_sound_renewed he answer htail.2.1

def localUrl : Option Name := some ['o', 'p', 'c']

/-- The server is down at first. -/
theorem along_sound_retried : Along step Sound (start none)
    [.initUrl localUrl, .call statusBad, .init, .call statusGood, .call statusGood, .stop] :=
  (along_sound none _).1 (by decide)

/-- Connected, stopped and initialised again, the new client passes for connected. -/
theorem along_sound_fails : ¬ ∀ (url : Option Name) (es : List Event),
    Along step Sound (start url) es := by
  intro h
  have hlast := (along_append.mp (h none ([.initUrl localUrl, .call statusGood, .stop, .init] ++
    [.call statusGood]))).2.1
  exact absurd (hlast (by decide) (by decide)) (by unfold Up; decide)

end RwModbus.OpcClient
