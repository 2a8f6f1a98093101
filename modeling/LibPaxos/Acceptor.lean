import LibPaxos.Storage

namespace LibPaxos

variable {σ : Type} [Storage σ]

def applyPrepare (s : σ) (pr : PrepareReq) (rec : Option AcceptorRecord) :
    Option (σ × AcceptorRecord) :=
  match rec with
  | some r =>
      -- We already have a more recent ballot, or the stored value is final.
      if r.ballot ≥ pr.ballot then some (s, r)
      else if r.isFinal then some (s, r)
      else storageSavePrepare s pr rec
  | none => storageSavePrepare s pr rec

def applyAccept (s : σ) (ar : AcceptReq) (rec : Option AcceptorRecord) :
    Option (σ × AcceptorRecord) :=
  match rec with
  | some r => if r.ballot > ar.ballot then some (s, r) else storageSaveAccept s ar
  | none => storageSaveAccept s ar

def acceptorReceivePrepare (s : σ) (req : PrepareReq) : Option (σ × AcceptorRecord) := do
  let (s, rec) ← storageGetRecord s req.iid
  applyPrepare s req rec

def acceptorReceiveAccept (s : σ) (req : AcceptReq) : Option (σ × AcceptorRecord) := do
  let (s, rec) ← storageGetRecord s req.iid
  applyAccept s req rec

def acceptorReceiveRepeat (s : σ) (iid : Nat) : Option (σ × Option AcceptorRecord) :=
  storageGetRecord s iid

-- The three requests an acceptor handles.
inductive AcceptorReq where
  | prepare (req : PrepareReq)
  | accept (req : AcceptReq)
  | repeat (iid : Nat)
  deriving Repr, DecidableEq

-- The state after a request and the record that is returned.
def acceptorReceive (s : σ) : AcceptorReq → Option (σ × Option AcceptorRecord)
  | .prepare req => (acceptorReceivePrepare s req).map fun (s, rec) => (s, some rec)
  | .accept req => (acceptorReceiveAccept s req).map fun (s, rec) => (s, some rec)
  | .repeat iid => acceptorReceiveRepeat s iid

def acceptorRun (s : σ) : List AcceptorReq → Option σ
  | [] => some s
  | req :: rest => (acceptorReceive s req).bind fun (s, _) => acceptorRun s rest

end LibPaxos
