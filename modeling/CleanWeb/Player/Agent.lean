import CleanWeb.Contracts.Consumption
import CleanWeb.Player.Recognize
import CleanWeb.Player.Session
import CleanWeb.Settle.Disclosure

/-!
# The player agent (`clients/player-plugin/src`: `main.rs`, `settle.rs`, `policy.rs`, `config.rs`)

The commands `play` and `settle` as steps of a world: the agent's files, the consumption contract
with its log, and the clock.  What may go wrong comes with each command: an unreadable file, a write
that fails before or half way, a submission that is not sent, that is dropped, that others overtake
and that then reverts, a receipt that never arrives.  A process that dies is a command whose next
step fails.
-/

namespace CleanWeb
namespace Player

open Lib Lib.Exec Hub Wallet Zk Contracts
open Settle (Disclosure toAsciiLowercase)

/-! ## Configuration -/

structure PlayerConfig where
  hubUrl : String
  rpcUrl : String
  privateKey : Option String
  consumption : Option String
  tierId : Option String
  threshold : Option Nat

inductive ConfigError where
  | missing (name : String)
  | invalid (name : String)
  deriving DecidableEq, Repr

/-- The private key, the contract and the tier. -/
def PlayerConfig.requireChain (cfg : PlayerConfig) :
    Exec ConfigError (String × String × String) := do
  let privateKey ← okOr cfg.privateKey (.missing "PRIVATE_KEY")
  let consumption ← okOr cfg.consumption (.missing "CONSUMPTION")
  let tierId ← okOr cfg.tierId (.missing "TIER_ID")
  pure (privateKey, consumption, tierId)

def allows (pricePerMin : Nat) (threshold : Option Nat) : Bool :=
  match threshold with
  | some cap => decide (pricePerMin ≤ cap)
  | none => true

def DecodedAudio.durationSecs {Sample : Type} (audio : DecodedAudio Sample) : Nat :=
  if audio.sampleRate = 0 then 0 else audio.samples.length / audio.sampleRate

/-- The code that the agent calls but does not contain, and what the deployed verifier answers to an
empty proof. -/
structure Tools (Sample : Type) where
  analysis : Analysis Sample
  hex : HexCodec
  poseidonHash : PoseidonHash
  signerFromStr : String → Option Address
  parsesUrl : String → Bool
  verdict : Bool

/-! ## The world -/

structure World where
  files : StateFiles
  disclosure : File Disclosure
  chain : CWEConsumption × List ConsumptionSubmitted
  now : Nat

def World.init : World :=
  ⟨⟨.absent, .absent⟩, .absent, (CWEConsumption.init, []), 0⟩

inductive SettleError where
  | config
  | signer
  | rpc
  | tx
  | io
  deriving DecidableEq, Repr

inductive CommandError where
  | decode
  | config (e : ConfigError)
  | session (e : SessionError)
  | badWorkId (e : Bytes32Error)
  | nothingToSettle
  | settle (e : SettleError)
  deriving DecidableEq, Repr

section

variable {Sample : Type} (tools : Tools Sample) (cfg : PlayerConfig)

/-! ## `play` -/

inductive PlayOutcome where
  | unrecognised
  | blocked
  | accrued (p : Play)
  deriving DecidableEq, Repr

/-- A file to play, what the network answers, and how the files fare; `audio` is absent where it
does not decode. -/
structure PlayEnv (Sample : Type) where
  audio : Option (DecodedAudio Sample)
  transport : HubTransport
  readable : Bool
  save : SaveOutcome

inductive Decision where
  | skip (o : PlayOutcome)
  | accrue (p : Play)

/-- The part of `play` before the session is loaded. -/
def choose (e : PlayEnv Sample) : Exec CommandError Decision := do
  let audio ← okOr e.audio .decode
  match recognize tools.analysis cfg.hubUrl audio e.transport with
  | none => pure (.skip .unrecognised)
  | some work =>
      if allows work.pricePerMin cfg.threshold then do
        let workId ← mapErr .badWorkId (Bytes32.fromStr tools.hex work.workId)
        pure (.accrue ⟨workId, audio.durationSecs, decide (work.tier = .fingerprint)⟩)
      else pure (.skip .blocked)

/-- Load the session, accrue the play, save. -/
def record (w : World) (p : Play) (readable : Bool) (o : SaveOutcome) :
    Exec CommandError PlayOutcome × World :=
  match Session.load w.files readable w.now with
  | .error t => (mapErr .session (.error t), w)
  | .ok session =>
      let out := (session.accrue tools.hex p.workId p.secs p.fingerprint).save w.files o
      ((mapErr .session out.1).map fun _ => .accrued p, { w with files := out.2 })

def cmdPlay (w : World) (e : PlayEnv Sample) : Exec CommandError PlayOutcome × World :=
  match choose tools cfg e with
  | .error t => (.error t, w)
  | .ok (.skip o) => (.ok o, w)
  | .ok (.accrue p) => record tools w p e.readable e.save

/-! ## `settle` -/

/-- What the network does to a submission: whether it is taken for sending, what others have mined
meanwhile, with the seconds between, and how many more pass; whether it is mined at all, whether
its gas lasts there, and whether the receipt comes back. -/
structure Network where
  sends : Bool
  meanwhile : List (Nat × Submission)
  delay : Nat
  mined : Bool
  gas : Bool
  receipt : Bool

structure SettleEnv where
  readable : Bool
  salts : Nat → Bytes32
  disclosureWrite : WriteOutcome
  network : Network
  save : SaveOutcome

/-- One opening for each entry, with a fresh salt. -/
def buildOpenings (usage : List UsageEntry) (saltFn : Nat → Bytes32) : List Opening :=
  usage.mapIdx fun i u => ⟨u.workId, u.minutes, u.plays, saltFn i⟩

def signerAddress (privateKey : String) : Exec SettleError String := do
  let user ← okOr (tools.signerFromStr privateKey) .signer
  pure (Address.display tools.hex user)

/-- What `settle` has in hand before it writes anything. -/
structure Prepared where
  session : Session
  openings : List Opening
  escrowWorks : List Bytes32
  userAddr : String

def prepare (w : World) (readable : Bool) (salts : Nat → Bytes32) : Exec CommandError Prepared := do
  let session ← mapErr .session (Session.load w.files readable w.now)
  let (usage, session) := session.flushUsage
  if usage.isEmpty then fail .nothingToSettle
  else
    let openings := buildOpenings usage salts
    let (escrowWorks, session) := session.takeEscrowWorks
    let (privateKey, _, _) ← mapErr .config cfg.requireChain
    let userAddr ← mapErr .settle (signerAddress tools privateKey)
    pure ⟨session, openings, escrowWorks, userAddr⟩

/-- The file that `write_disclosure` writes. -/
def disclosureOf (p : Prepared) : Disclosure :=
  { users := (∅ : BTreeMap String (List Opening)).insert (toAsciiLowercase p.userAddr) p.openings
    escrowWorks := p.escrowWorks }

/-- The signer and the tier of a submission, with everything else parsed too. -/
def target : Exec SettleError (Address × Bytes32) := do
  let (privateKey, consumption, tierId) ← mapErr (fun _ => .config) cfg.requireChain
  let user ← okOr (tools.signerFromStr privateKey) .signer
  if tools.parsesUrl cfg.rpcUrl then do
    let _ ← okOr (Address.fromStr tools.hex consumption) .config
    let tier ← mapErr (fun _ => .config) (Bytes32.fromStr tools.hex tierId)
    pure (user, tier)
  else fail .rpc

/-- The call of `submitConsumption`, with the commitments in place of the proven fields. -/
def callOf (user : Address) (tier : Bytes32) (openings : List Opening) (timestamp : Nat) :
    Submission :=
  let commitments := openings.map (Opening.commit tools.poseidonHash)
  { sender := user
    timestamp := timestamp
    tierId := tier
    commitments := commitments
    pseudonyms := commitments
    workIds := commitments
    weights := commitments.map fun _ => 1
    digest := 0
    verdict := tools.verdict }

/-- The contract takes the call; gas estimation fails where it does not. -/
def taken (st : CWEConsumption) (c : Submission) : Bool :=
  (CWEConsumption.submitConsumption st c).toBool

/-- The chain and the time after what others have mined. -/
def elsewhere (chain : CWEConsumption × List ConsumptionSubmitted) (now : Nat)
    (others : List (Nat × Submission)) : (CWEConsumption × List ConsumptionSubmitted) × Nat :=
  others.foldl (fun (chain, now) (seconds, c) =>
    (CWEConsumption.next chain { c with timestamp := now + seconds }, now + seconds)) (chain, now)

/-- A transaction in its block, with the event that it logs unless it reverts. -/
def mine (chain : CWEConsumption × List ConsumptionSubmitted) (c : Submission) (gas : Bool) :
    (CWEConsumption × List ConsumptionSubmitted) × Option ConsumptionSubmitted :=
  if gas then
    match CWEConsumption.submitConsumption chain.1 c with
    | .ok (st, event) => ((st, chain.2 ++ [event]), some event)
    | .error _ => (chain, none)
  else (chain, none)

/-- What a submission comes to: what its caller is told, the event that was logged, the chain and
the time. -/
structure Submitted where
  answer : Exec SettleError Unit
  logged : Option ConsumptionSubmitted
  chain : CWEConsumption × List ConsumptionSubmitted
  now : Nat

/-- Submit and await the receipt. -/
def submitConsumption (openings : List Opening)
    (chain : CWEConsumption × List ConsumptionSubmitted) (now : Nat) (net : Network) : Submitted :=
  match target tools cfg with
  | .error t => ⟨.error t, none, chain, now⟩
  | .ok (user, tier) =>
      if net.sends ∧ taken chain.1 (callOf tools user tier openings now) then
        let (chain, later) := elsewhere chain now net.meanwhile
        let minedAt := later + net.delay
        if net.mined then
          let (chain, logged) := mine chain (callOf tools user tier openings minedAt) net.gas
          -- The status of the receipt is not looked at.
          ⟨if net.receipt then .ok () else fail .tx, logged, chain, minedAt⟩
        else ⟨fail .tx, none, chain, minedAt⟩
      else ⟨fail .tx, none, chain, now⟩

/-- A settlement: what the command returns, the event that it has logged, and the world. -/
structure SettleOutcome where
  answer : Exec CommandError Unit
  logged : Option ConsumptionSubmitted
  world : World

/-- Write the disclosure, submit, save the drained session. -/
def finish (w : World) (p : Prepared) (e : SettleEnv) : SettleOutcome :=
  let w := { w with disclosure := w.disclosure.write (disclosureOf p) e.disclosureWrite }
  if e.disclosureWrite = .written then
    let s := submitConsumption tools cfg p.openings w.chain w.now e.network
    let w := { w with chain := s.chain, now := s.now }
    match s.answer with
    | .error t => ⟨mapErr .settle (.error t), s.logged, w⟩
    | .ok _ =>
        let out := p.session.save w.files e.save
        ⟨mapErr .session out.1, s.logged, { w with files := out.2 }⟩
  else ⟨fail (.settle .io), none, w⟩

def cmdSettle (w : World) (e : SettleEnv) : SettleOutcome :=
  match prepare tools cfg w e.readable e.salts with
  | .error t => ⟨.error t, none, w⟩
  | .ok p => finish tools cfg w p e

/-! ## Runs -/

/-- A command of the agent, time that passes, or a submission made elsewhere. -/
inductive Action (Sample : Type) where
  | wait (seconds : Nat)
  | other (c : Submission)
  | play (e : PlayEnv Sample)
  | settle (e : SettleEnv)

def step (w : World) : Action Sample → World
  | .wait seconds => { w with now := w.now + seconds }
  | .other c => { w with chain := CWEConsumption.next w.chain { c with timestamp := w.now } }
  | .play e => (cmdPlay tools cfg w e).2
  | .settle e => (cmdSettle tools cfg w e).world

def run (as : List (Action Sample)) : World :=
  as.foldl (step tools cfg) World.init

theorem run_append_singleton (as : List (Action Sample)) (a : Action Sample) :
    run tools cfg (as ++ [a]) = step tools cfg (run tools cfg as) a := by
  simp [run]

end

end Player
end CleanWeb
