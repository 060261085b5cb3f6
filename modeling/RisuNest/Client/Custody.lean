import RisuNest.Client.Residency
import RisuNest.Lib.Runs

/-! Custody between one device and its server: requests that arrive late, repeatedly or never,
responses that are lost, and crashes between any two steps. -/
namespace RisuNest.Client
open Wire

structure RetainRequest where
  epoch : String
  page : List (String × Option ℕ)

/-- A running `retain`: the pages it has not confirmed, and the request it waits on. -/
structure RetainCall where
  config : StoredConfig
  head : RemoteHead
  pages : List (List (String × Option ℕ))
  waiting : Option ℕ
  deriving DecidableEq

structure CustodyWorld where
  server : Server.Store
  residency : Residency
  calls : List RetainCall
  /-- Every request for custody ever sent. -/
  requests : List RetainRequest
  /-- Every response to one of them, by its number. -/
  answers : List (ℕ × List Server.RetainedObject)
  /-- The releases begun by calls that are still running. -/
  begun : List RemoteObject
  /-- Every request for a release ever sent. -/
  releases : List (String × List RemoteObject)
  /-- The objects whose release the server answered. -/
  acknowledged : List RemoteObject
  /-- Every token that `secret_token` has drawn. -/
  issued : List String

inductive CustodyEvent
  /-- `retain` starts. -/
  | retain (config : StoredConfig) (head : RemoteHead) (objects : List (String × Option ℕ))
  /-- It sends the request for its next page. -/
  | ask (call : RetainCall)
  /-- A request reaches the server, for the first time or again. -/
  | grant (request : ℕ) (formatLevel : Option ℕ) (token : String → String)
  /-- A response reaches the call that waits for it. -/
  | take (call : RetainCall) (retained : List Server.RetainedObject)
  /-- A call ends with an error, or without a response. -/
  | drop (call : RetainCall)
  | crash
  | beginRelease (object : RemoteObject)
  | beginLatestRelease (digest context : String)
  | sendRelease (epoch : String) (objects : List RemoteObject)
  /-- A release reaches the server, for the first time or again. -/
  | release (requester : Server.Device) (epoch : String) (objects : List RemoteObject)
  | finishRelease (object : RemoteObject)
  | maintain (current clock : ℤ)
  /-- Another operation of the server. -/
  | other (next : Server.Store)

/-- What the server is sent of an object to release. -/
def RemoteObject.toRelease (o : RemoteObject) : Server.RetentionRelease :=
  ⟨o.deviceId,o.hash,o.retentionId⟩

/-- The operations of the server that leave this device's custody alone and delete no objects:
pushes, transfers, pins, and what other devices do. -/
def LeavesCustody (device : String) (s t : Server.Store) : Prop :=
  (∀ r ∈ s.objectCustody.rows, r.1.1 = device → t.objectCustody.get r.1 = some r.2) ∧
    (∀ r ∈ t.objectCustody.rows, r.1.1 = device → s.objectCustody.get r.1 = some r.2) ∧
    (∀ r ∈ s.objects.rows, t.objects.contains r.1 = true) ∧
    t.head.epoch = s.head.epoch ∧ t.head.libraryId = s.head.libraryId

instance (device : String) (s t : Server.Store) : Decidable (LeavesCustody device s t) :=
  inferInstanceAs (Decidable (_ ∧ _))

namespace CustodyWorld
variable (cr : Crates) (device : String)

/-- A response that reaches its call: it is checked and confirmed, and the call goes on with its
next page. -/
def takeAnswer (w : CustodyWorld) (call : RetainCall) (retained : List Server.RetainedObject) :
    CustodyWorld :=
  let checked : Synced Residency := do
    Residency.checkResponse (call.pages.headD []) retained
    w.residency.confirm cr call.config call.head retained
  match checked with
  | .error _ => { w with calls := w.calls.erase call }
  | .ok residency =>
    { w with
      residency := residency
      calls := if call.pages.tail = [] then w.calls.erase call
        else { call with pages := call.pages.tail, waiting := none }::w.calls.erase call }

/-- A call that waits for the response to its next page, with its request sent. -/
def asked (w : CustodyWorld) (call : RetainCall) : CustodyWorld :=
  { w with
    calls := { call with waiting := some w.requests.length }::w.calls.erase call
    requests := w.requests ++ [⟨call.head.epoch,call.pages.headD []⟩] }

@[simp] lemma asked_requests (w : CustodyWorld) (call : RetainCall) :
    (w.asked call).requests = w.requests ++ [⟨call.head.epoch,call.pages.headD []⟩] := rfl

/-- The tokens drawn for a request. -/
def drawn (request : RetainRequest) (token : String → String) : List String :=
  request.page.map fun p => token p.1

/-- A request granted by the server. -/
def granted (w : CustodyWorld) (n : ℕ) (tokens : List String) (server : Server.Store)
    (retained : List Server.RetainedObject) : CustodyWorld :=
  { w with
    server := server
    answers := (n,retained)::w.answers
    issued := tokens ++ w.issued }

/-- One event, or `none` where it is not possible. -/
def step (w : CustodyWorld) : CustodyEvent → Option CustodyWorld
  | .retain config head objects =>
    if config.deviceId = device ∧ config.libraryId = w.server.head.libraryId then
      some { w with calls := ⟨config,head,objects.toChunks 1024,none⟩::w.calls }
    else none
  | .ask call =>
    if call ∈ w.calls ∧ call.waiting = none ∧ call.pages ≠ [] then
      some (w.asked call)
    else none
  | .grant n formatLevel token =>
    match w.requests[n]? with
    | none => none
    | some request =>
      if ∀ t ∈ drawn request token, t ∉ w.issued then
        match w.server.retainObjects cr ⟨device,formatLevel⟩ request.epoch
          (request.page.map fun p => ⟨p.1,p.2⟩) token with
        | .error _ => some w
        | .ok (server,retained) =>
          some (w.granted n (drawn request token) server retained)
      else none
  | .take call retained =>
    if call ∈ w.calls ∧ ∃ n ∈ call.waiting, (n,retained) ∈ w.answers then
      some (w.takeAnswer cr call retained)
    else none
  | .drop call => some { w with calls := w.calls.erase call }
  | .crash => some { w with calls := [], begun := [], acknowledged := [] }
  | .beginRelease object =>
    let (residency,updated) := w.residency.beginRelease object
    some { w with
      residency := residency
      begun := if updated then object::w.begun else w.begun }
  | .beginLatestRelease digest context =>
    let (residency,answer) := w.residency.beginLatestRelease digest context
    some { w with
      residency := residency
      begun := match answer with
        | .ok (some object) => object::w.begun
        | _ => w.begun }
  | .sendRelease epoch objects =>
    if ∀ o ∈ objects, o ∈ w.begun then
      some { w with releases := (epoch,objects)::w.releases }
    else none
  | .release requester epoch objects =>
    if (epoch,objects) ∈ w.releases then
      match w.server.releaseRetainedObjects cr requester epoch
        (objects.map RemoteObject.toRelease) with
      | .error _ => some w
      | .ok server => some { w with server := server, acknowledged := objects ++ w.acknowledged }
    else none
  | .finishRelease object =>
    if object ∈ w.acknowledged then
      some { w with residency := w.residency.finishRelease object }
    else none
  | .maintain current clock =>
    some { w with server := (w.server.maintainAt cr current clock).2 }
  | .other next =>
    if LeavesCustody device w.server next then some { w with server := next } else none

/-- The device has nothing yet: no custody known, no call running and nothing sent. -/
structure Fresh (w : CustodyWorld) : Prop where
  residency : w.residency = .empty
  calls : w.calls = []
  requests : w.requests = []
  answers : w.answers = []
  begun : w.begun = []
  releases : w.releases = []
  /-- A custody row refers to a row of an object. -/
  stored : ∀ k retentionId, w.server.objectCustody.get k = some retentionId →
    w.server.objects.contains k.2 = true

/-- No call of `retain` waits for a response. -/
def NoneWaiting (w : CustodyWorld) : Prop := ∀ call ∈ w.calls, call.waiting = none

/-- Releases begin only in the command that evicts: no call of `retain` runs beside it. -/
def ReleasesAlone (w : CustodyWorld) : CustodyEvent → Prop
  | .beginRelease _ | .beginLatestRelease _ _ => w.NoneWaiting
  | _ => True

/-! ### What holds between the two sides -/

/-- An object that a call has begun to release, or that a request to release names. -/
def Leaving (w : CustodyWorld) (o : RemoteObject) : Prop :=
  o ∈ w.begun ∨ ∃ p ∈ w.releases, o ∈ p.2

/-- The server keeps an object for the device under an id that no release names. -/
def Held (w : CustodyWorld) (digest : String) : Prop :=
  ∃ retentionId, w.server.objectCustody.get (device,digest) = some retentionId ∧
    ∀ o, w.Leaving o → o.hash = digest → o.retentionId ≠ retentionId

structure Agreed (w : CustodyWorld) : Prop where
  stored : ∀ digest retentionId, w.server.objectCustody.get (device,digest) = some retentionId →
    w.server.objects.contains digest = true
  rows : ∀ k row, w.residency.objects.get k = some row →
    k.1 = Residency.contextOf cr w.server.head.libraryId device w.server.head.epoch ∧
      row.retentionId ∈ w.issued ∧ (row.state = .active → w.Held device k.2)
  calls : ∀ call ∈ w.calls, call.config.deviceId = device ∧
    call.config.libraryId = w.server.head.libraryId ∧
    ∀ n ∈ call.waiting, ∃ request, w.requests[n]? = some request ∧
      request.epoch = call.head.epoch
  answers : ∀ n retained, (n,retained) ∈ w.answers → n < w.requests.length ∧
    (∀ request, w.requests[n]? = some request → request.epoch = w.server.head.epoch) ∧
    ∀ o ∈ retained, o.retentionId ∈ w.issued
  promised : ∀ call ∈ w.calls, ∀ n ∈ call.waiting, ∀ retained, (n,retained) ∈ w.answers →
    ∀ o ∈ retained, w.Held device o.hash
  leaving : ∀ o, w.Leaving o → o.retentionId ∈ w.issued

variable {cr device}

lemma Held.mono {v w : CustodyWorld} {digest : String} (h : w.Held device digest)
    (hc : ∀ retentionId, w.server.objectCustody.get (device,digest) = some retentionId →
      v.server.objectCustody.get (device,digest) = some retentionId)
    (hl : ∀ o, v.Leaving o → w.Leaving o) : v.Held device digest := by
  obtain ⟨retentionId,hk,hn⟩ := h
  exact ⟨retentionId,hc retentionId hk,fun o ho => hn o (hl o ho)⟩

lemma Agreed.lessen {v w : CustodyWorld} (h : w.Agreed cr device) (hs : v.server = w.server)
    (hr : ∀ k row, v.residency.objects.get k = some row → ∃ old,
      w.residency.objects.get k = some old ∧ row.retentionId = old.retentionId ∧
        (row.state = .active → old.state = .active))
    (hc : ∀ call ∈ v.calls, call ∈ w.calls) (hq : v.requests = w.requests)
    (ha : v.answers = w.answers) (hl : ∀ o, v.Leaving o → w.Leaving o)
    (hi : v.issued = w.issued) : v.Agreed cr device := by
  have held : ∀ digest, w.Held device digest → v.Held device digest :=
    fun digest hh => hh.mono (fun _ hk => by rwa [hs]) hl
  constructor
  · rw [hs]
    exact h.stored
  · intro k row hk
    obtain ⟨old,ho,hid,hst⟩ := hr k row hk
    obtain ⟨h1,h2,h3⟩ := h.rows k old ho
    rw [hs,hi,hid]
    exact ⟨h1,h2,fun hact => held _ (h3 (hst hact))⟩
  · intro call hcall
    rw [hs,hq]
    exact h.calls call (hc call hcall)
  · rw [ha,hq,hs,hi]
    exact h.answers
  · intro call hcall n hn retained hm o ho
    rw [ha] at hm
    exact held _ (h.promised call (hc call hcall) n hn retained hm o ho)
  · intro o ho
    rw [hi]
    exact h.leaving o (hl o ho)

lemma Agreed.serve {w : CustodyWorld} {server : Server.Store} (h : w.Agreed cr device)
    (hh : ∀ digest, w.Held device digest → { w with server := server }.Held device digest)
    (hst : ∀ digest retentionId, server.objectCustody.get (device,digest) = some retentionId →
      server.objects.contains digest = true)
    (he : server.head.epoch = w.server.head.epoch)
    (hl : server.head.libraryId = w.server.head.libraryId) :
    { w with server := server }.Agreed cr device := by
  constructor
  · exact hst
  · intro k row hk
    obtain ⟨h1,h2,h3⟩ := h.rows k row hk
    refine ⟨?_,h2,fun hact => hh _ (h3 hact)⟩
    change k.1 = Residency.contextOf cr server.head.libraryId device server.head.epoch
    rw [he,hl]
    exact h1
  · intro call hcall
    obtain ⟨h1,h2,h3⟩ := h.calls call hcall
    exact ⟨h1,h2.trans hl.symm,h3⟩
  · intro n retained hm
    obtain ⟨h1,h2,h3⟩ := h.answers n retained hm
    exact ⟨h1,fun request hq => (h2 request hq).trans he.symm,h3⟩
  · intro call hcall n hn retained hm o ho
    exact hh _ (h.promised call hcall n hn retained hm o ho)
  · exact h.leaving

/-! ### What each event keeps -/

lemma Agreed.retain {w : CustodyWorld} {config : StoredConfig} {head : RemoteHead}
    {pages : List (List (String × Option ℕ))} (h : w.Agreed cr device)
    (hd : config.deviceId = device) (hl : config.libraryId = w.server.head.libraryId) :
    { w with calls := ⟨config,head,pages,none⟩::w.calls }.Agreed cr device := by
  refine { h with calls := ?_, promised := ?_ }
  · intro call hcall
    rcases List.mem_cons.mp hcall with rfl | hcall
    · exact ⟨hd,hl,fun n hn => by cases hn⟩
    · exact h.calls call hcall
  · intro call hcall n hn
    rcases List.mem_cons.mp hcall with rfl | hcall
    · cases hn
    · exact h.promised call hcall n hn

lemma Agreed.ask {w : CustodyWorld} {call : RetainCall} (h : w.Agreed cr device)
    (hc : call ∈ w.calls) : (w.asked call).Agreed cr device := by
  refine { h with calls := ?_, answers := ?_, promised := ?_ }
  · intro c hcall
    rcases List.mem_cons.mp hcall with rfl | hcall
    · obtain ⟨h1,h2,-⟩ := h.calls call hc
      refine ⟨h1,h2,?_⟩
      rintro n ⟨⟩
      exact ⟨⟨call.head.epoch,call.pages.headD []⟩,by simp,rfl⟩
    · obtain ⟨h1,h2,h3⟩ := h.calls c (List.mem_of_mem_erase hcall)
      refine ⟨h1,h2,fun n hn => ?_⟩
      obtain ⟨request,hq,he⟩ := h3 n hn
      have hlt : n < w.requests.length := (List.getElem?_eq_some_iff.mp hq).1
      exact ⟨request,by simpa [List.getElem?_append_left hlt] using hq,he⟩
  · intro n retained hm
    obtain ⟨h1,h2,h3⟩ := h.answers n retained hm
    refine ⟨by rw [asked_requests,List.length_append]; omega,fun request hq => ?_,h3⟩
    exact h2 request (by simpa [List.getElem?_append_left h1] using hq)
  · intro c hcall n hn retained hm
    rcases List.mem_cons.mp hcall with rfl | hcall
    · cases hn
      exact absurd (h.answers _ _ hm).1 (lt_irrefl _)
    · exact h.promised c (List.mem_of_mem_erase hcall) n hn retained hm

lemma Agreed.grant {w : CustodyWorld} {n : ℕ} {request : RetainRequest} {level : Option ℕ}
    {token : String → String} {server : Server.Store} {retained : List Server.RetainedObject}
    (h : w.Agreed cr device) (hq : w.requests[n]? = some request)
    (hf : ∀ t ∈ drawn request token, t ∉ w.issued)
    (hr : w.server.retainObjects cr ⟨device,level⟩ request.epoch
      (request.page.map fun p => ⟨p.1,p.2⟩) token = .ok (server,retained)) :
    (w.granted n (drawn request token) server retained).Agreed cr device := by
  obtain ⟨hepoch,hg⟩ := Server.Store.retainObjects_retained cr hr
  have hhead : server.head = w.server.head := hg.only.head
  have fresh : ∀ o ∈ retained, token o.hash ∈ drawn request token := by
    intro o ho
    obtain ⟨-,-,-,hm⟩ := hg.granted o ho
    obtain ⟨i,hi,he⟩ := List.mem_map.mp hm
    obtain ⟨p,hp,rfl⟩ := List.mem_map.mp hi
    rw [← he]
    exact List.mem_map_of_mem hp
  -- what was just granted is held, since its id was never drawn before
  have granted : ∀ o ∈ retained,
      (w.granted n (drawn request token) server retained).Held device o.hash := by
    intro o ho
    refine ⟨token o.hash,(hg.granted o ho).2.1,fun p hp _ he => ?_⟩
    exact hf _ (fresh o ho) (he ▸ h.leaving p hp)
  have held : ∀ digest, w.Held device digest →
      (w.granted n (drawn request token) server retained).Held device digest := by
    intro digest hh
    rcases hg.others (device,digest) with hold | ⟨o,ho,hk⟩
    · exact hh.mono (fun _ hk => hold.trans hk) fun _ ho => ho
    · obtain rfl : digest = o.hash := (Prod.mk.inj hk).2
      exact granted o ho
  constructor
  · intro digest retentionId hk
    change server.objects.contains digest = true
    rw [hg.only.objects]
    rcases hg.others (device,digest) with hold | ⟨o,ho,hk'⟩
    · exact h.stored digest retentionId (hold.symm.trans hk)
    · obtain rfl : digest = o.hash := (Prod.mk.inj hk').2
      exact (hg.granted o ho).2.2.1
  · intro k row hk
    obtain ⟨h1,h2,h3⟩ := h.rows k row hk
    refine ⟨?_,List.mem_append_right _ h2,fun hact => held _ (h3 hact)⟩
    change k.1 = Residency.contextOf cr server.head.libraryId device server.head.epoch
    rw [hhead]
    exact h1
  · intro call hcall
    obtain ⟨h1,h2,h3⟩ := h.calls call hcall
    refine ⟨h1,?_,h3⟩
    change call.config.libraryId = server.head.libraryId
    rw [hhead]
    exact h2
  · intro m answered hm
    change _ ∧ (∀ request : RetainRequest, _ → request.epoch = server.head.epoch) ∧ _
    rw [hhead]
    rcases List.mem_cons.mp hm with he | hm
    · obtain ⟨rfl,rfl⟩ := Prod.mk.inj he
      refine ⟨(List.getElem?_eq_some_iff.mp hq).1,?_,?_⟩
      · intro r hr
        obtain rfl := Option.some.inj (hq.symm.trans hr)
        exact hepoch.symm
      · intro o ho
        rw [(hg.granted o ho).1]
        exact List.mem_append_left _ (fresh o ho)
    · obtain ⟨h1,h2,h3⟩ := h.answers m answered hm
      exact ⟨h1,h2,fun o ho => List.mem_append_right _ (h3 o ho)⟩
  · intro call hcall m hm answered ha o ho
    rcases List.mem_cons.mp ha with he | ha
    · obtain ⟨rfl,rfl⟩ := Prod.mk.inj he
      exact granted o ho
    · exact held _ (h.promised call hcall m hm answered ha o ho)
  · intro o ho
    exact List.mem_append_right _ (h.leaving o ho)

lemma Agreed.take {w : CustodyWorld} {call : RetainCall} {n : ℕ}
    {retained : List Server.RetainedObject} (h : w.Agreed cr device) (hc : call ∈ w.calls)
    (hn : n ∈ call.waiting) (ha : (n,retained) ∈ w.answers) :
    (w.takeAnswer cr call retained).Agreed cr device := by
  unfold takeAnswer
  dsimp only
  split
  · exact h.lessen rfl (fun k row hk => ⟨row,hk,rfl,id⟩)
      (fun c hc => List.mem_of_mem_erase hc) rfl rfl (fun _ ho => ho) rfl
  · next residency hr =>
    obtain ⟨-,-,hr⟩ := bind_eq_ok.mp hr
    obtain ⟨hcd,hcl,hcw⟩ := h.calls call hc
    obtain ⟨request,hq,hepoch⟩ := hcw n hn
    obtain ⟨-,hse,hid⟩ := h.answers n retained ha
    have hctx : Residency.contextId cr call.config call.head.epoch =
        Residency.contextOf cr w.server.head.libraryId device w.server.head.epoch := by
      unfold Residency.contextId
      rw [hcd,hcl,← hepoch,hse request hq]
    have hcalls : ∀ c ∈ (if call.pages.tail = [] then w.calls.erase call
        else { call with pages := call.pages.tail, waiting := none }::w.calls.erase call),
        c ∈ w.calls ∨ c.waiting = none ∧ c.config = call.config := by
      intro c hm
      split at hm
      · exact .inl (List.mem_of_mem_erase hm)
      · rcases List.mem_cons.mp hm with rfl | hm
        · exact .inr ⟨rfl,rfl⟩
        · exact .inl (List.mem_of_mem_erase hm)
    refine { h with rows := ?_, calls := ?_, promised := ?_ }
    · intro k row hk
      rcases Residency.rows_of_confirm hr hk with hold | ⟨hk1,o,ho,hh,hrid⟩
      · exact h.rows k row hold
      · refine ⟨hk1.trans hctx,hrid ▸ hid o ho,fun _ => ?_⟩
        rw [← hh]
        exact h.promised call hc n hn retained ha o ho
    · intro c hm
      rcases hcalls c hm with hm | ⟨hw,hcfg⟩
      · exact h.calls c hm
      · rw [hcfg,hw]
        exact ⟨hcd,hcl,fun n hn => by cases hn⟩
    · intro c hm m hwait
      rcases hcalls c hm with hm | ⟨hw,-⟩
      · exact h.promised c hm m hwait
      · rw [hw] at hwait
        cases hwait

/-- A release begins with no call waiting: it takes the row out of use, and names an id that the
server gives up for no other row in use. -/
lemma Agreed.release {w : CustodyWorld} {residency : Residency} {object : RemoteObject}
    {row : CustodyRow} (h : w.Agreed cr device) (hw : w.NoneWaiting)
    (hrow : w.residency.objects.get (object.context,object.hash) = some row)
    (hid : row.retentionId = object.retentionId)
    (hr : residency.objects = w.residency.objects.upsert (object.context,object.hash)
      { row with state := .releasing }) :
    { w with residency := residency, begun := object::w.begun }.Agreed cr device := by
  have hleave : ∀ o,
      { w with residency := residency, begun := object::w.begun }.Leaving o →
        o = object ∨ w.Leaving o := by
    intro o ho
    rcases ho with ho | ho
    · rcases List.mem_cons.mp ho with rfl | ho
      · exact .inl rfl
      · exact .inr (.inl ho)
    · exact .inr (.inr ho)
  obtain ⟨hctx,hissued,-⟩ := h.rows _ row hrow
  refine { h with rows := ?_, promised := ?_, leaving := ?_ }
  · intro k new hk
    change residency.objects.get k = some new at hk
    rw [hr,Table.get_upsert] at hk
    by_cases he : k = (object.context,object.hash)
    · subst k
      rw [if_pos rfl] at hk
      obtain rfl := Option.some.inj hk
      exact ⟨hctx,hissued,fun hact => by cases hact⟩
    · rw [if_neg he] at hk
      obtain ⟨h1,h2,h3⟩ := h.rows k new hk
      refine ⟨h1,h2,fun hact => ?_⟩
      obtain ⟨retentionId,hc,hn⟩ := h3 hact
      refine ⟨retentionId,hc,fun o ho hh => ?_⟩
      rcases hleave o ho with rfl | ho
      · -- the rows of one hash share their context
        exact absurd (Prod.ext (h1.trans hctx.symm) hh.symm) he
      · exact hn o ho hh
  · intro call hcall n hn
    rw [hw call hcall] at hn
    cases hn
  · intro o ho
    rcases hleave o ho with rfl | ho
    · exact hid ▸ hissued
    · exact h.leaving o ho

lemma Agreed.beginRelease {w : CustodyWorld} {object : RemoteObject} (h : w.Agreed cr device)
    (hw : w.NoneWaiting) :
    { w with
      residency := (w.residency.beginRelease object).1
      begun := if (w.residency.beginRelease object).2 then object::w.begun else w.begun
    }.Agreed cr device := by
  cases hr : w.residency.beginRelease object with
  | mk residency updated =>
    rcases Residency.setReleasing_spec hr with ⟨rfl,rfl⟩ | ⟨rfl,row,hrow,hid,hres⟩
    · exact h
    · exact h.release hw hrow hid (by rw [hres])

lemma Agreed.beginLatestRelease {w v : CustodyWorld} {digest context : String}
    (h : w.Agreed cr device) (hw : w.NoneWaiting)
    (he : w.step cr device (.beginLatestRelease digest context) = some v) :
    v.Agreed cr device := by
  unfold CustodyWorld.step at he
  cases hr : w.residency.beginLatestRelease digest context with
  | mk residency answer =>
    dsimp only at he
    rw [hr] at he
    dsimp only at he
    obtain rfl := Option.some.inj he
    rcases Residency.beginLatestRelease_spec hr with ⟨rfl,hn⟩ | ⟨object,row,rfl,hrow,hid,hres⟩
    · split
      · next object => exact absurd rfl (hn object)
      · exact h
    · exact h.release hw hrow hid (by rw [hres])

lemma Agreed.letGo {w : CustodyWorld} {requester : Server.Device} {epoch : String}
    {objects : List RemoteObject} {server : Server.Store} (h : w.Agreed cr device)
    (hm : (epoch,objects) ∈ w.releases)
    (hr : w.server.releaseRetainedObjects cr requester epoch
      (objects.map RemoteObject.toRelease) = .ok server) :
    { w with server := server }.Agreed cr device := by
  have hl := Server.Store.releaseRetainedObjects_letGo cr hr
  apply h.serve
  · intro digest hh
    obtain ⟨retentionId,hk,hn⟩ := hh
    refine ⟨retentionId,(hl.custody _ _).mpr ⟨hk,fun hmem => ?_⟩,hn⟩
    obtain ⟨o,ho,he⟩ := List.mem_map.mp hmem
    unfold RemoteObject.toRelease at he
    injection he with _ hhash hid
    exact hn o (.inr ⟨_,hm,ho⟩) hhash hid
  · intro digest retentionId hk
    rw [hl.only.objects]
    exact h.stored digest retentionId ((hl.custody _ _).mp hk).1
  · rw [hl.only.head]
  · rw [hl.only.head]

lemma Agreed.maintain {w : CustodyWorld} (h : w.Agreed cr device) (current clock : ℤ) :
    { w with server := (w.server.maintainAt cr current clock).2 }.Agreed cr device := by
  obtain ⟨hc,he,hl,ho⟩ := Server.Store.maintainAt_custody cr w.server current clock
  apply h.serve _ _ he hl
  · refine fun digest hh => hh.mono (fun retentionId hk => ?_) fun _ ho => ho
    change (w.server.maintainAt cr current clock).2.objectCustody.get _ = _
    rw [hc]
    exact hk
  · intro digest retentionId hk
    rw [hc] at hk
    exact ho device digest retentionId hk (h.stored digest retentionId hk)

lemma Agreed.other {w : CustodyWorld} {next : Server.Store} (h : w.Agreed cr device)
    (hn : LeavesCustody device w.server next) : { w with server := next }.Agreed cr device := by
  obtain ⟨hkept,hsame,hobj,he,hl⟩ := hn
  apply h.serve _ _ he hl
  · intro digest hh
    refine hh.mono (fun retentionId hk => ?_) fun _ ho => ho
    exact hkept ((device,digest),retentionId) (Table.get_eq_some.mp hk) rfl
  · intro digest retentionId hk
    have hold := hsame ((device,digest),retentionId) (Table.get_eq_some.mp hk) rfl
    obtain ⟨body,hb⟩ := Table.contains_iff.mp (h.stored digest retentionId hold)
    exact hobj (digest,body) (Table.get_eq_some.mp hb)

lemma Agreed.finishRelease {w : CustodyWorld} (h : w.Agreed cr device) (object : RemoteObject) :
    { w with residency := w.residency.finishRelease object }.Agreed cr device := by
  refine h.lessen rfl (fun k row hk => ?_) (fun _ hc => hc) rfl rfl (fun _ ho => ho) rfl
  change (w.residency.finishRelease object).objects.get k = some row at hk
  unfold Residency.finishRelease at hk
  split at hk
  · exact ⟨row,hk,rfl,id⟩
  · next old hold =>
    split at hk
    · rw [Table.get_upsert] at hk
      by_cases he : k = (object.context,object.hash)
      · subst k
        rw [if_pos rfl] at hk
        obtain rfl := Option.some.inj hk
        exact ⟨old,hold,rfl,fun hact => by cases hact⟩
      · rw [if_neg he] at hk
        exact ⟨row,hk,rfl,id⟩
    · exact ⟨row,hk,rfl,id⟩

/-- Every event keeps the agreement, a release that begins only with no call waiting. -/
theorem Agreed.step {w v : CustodyWorld} {e : CustodyEvent} (h : w.Agreed cr device)
    (ha : w.ReleasesAlone e) (he : w.step cr device e = some v) : v.Agreed cr device := by
  cases e with
  | retain config head objects =>
    unfold CustodyWorld.step at he
    dsimp only at he
    split at he
    · next hg =>
      obtain rfl := Option.some.inj he
      exact h.retain hg.1 hg.2
    · contradiction
  | ask call =>
    unfold CustodyWorld.step at he
    dsimp only at he
    split at he
    · next hg =>
      obtain rfl := Option.some.inj he
      exact h.ask hg.1
    · contradiction
  | grant n level token =>
    unfold CustodyWorld.step at he
    dsimp only at he
    split at he
    · contradiction
    · next request hq =>
      split at he
      · next hf =>
        split at he
        · obtain rfl := Option.some.inj he
          exact h
        · next server retained hr =>
          obtain rfl := Option.some.inj he
          exact h.grant hq hf hr
      · contradiction
  | take call retained =>
    unfold CustodyWorld.step at he
    dsimp only at he
    split at he
    · next hg =>
      obtain rfl := Option.some.inj he
      obtain ⟨hc,n,hn,hm⟩ := hg
      exact h.take hc hn hm
    · contradiction
  | drop call =>
    obtain rfl := Option.some.inj he
    exact h.lessen rfl (fun k row hk => ⟨row,hk,rfl,id⟩)
      (fun c hc => List.mem_of_mem_erase hc) rfl rfl (fun _ ho => ho) rfl
  | crash =>
    obtain rfl := Option.some.inj he
    refine h.lessen rfl (fun k row hk => ⟨row,hk,rfl,id⟩) (fun c hc => ?_) rfl rfl
      (fun o ho => ?_) rfl
    · cases hc
    · rcases ho with ho | ho
      · cases ho
      · exact .inr ho
  | beginRelease object =>
    obtain rfl := Option.some.inj he
    exact h.beginRelease ha
  | beginLatestRelease digest context => exact h.beginLatestRelease ha he
  | sendRelease epoch objects =>
    unfold CustodyWorld.step at he
    dsimp only at he
    split at he
    · next hg =>
      obtain rfl := Option.some.inj he
      refine h.lessen rfl (fun k row hk => ⟨row,hk,rfl,id⟩) (fun _ hc => hc) rfl rfl
        (fun o ho => ?_) rfl
      rcases ho with ho | ⟨p,hp,ho⟩
      · exact .inl ho
      · rcases List.mem_cons.mp hp with rfl | hp
        · exact .inl (hg o ho)
        · exact .inr ⟨p,hp,ho⟩
    · contradiction
  | release requester epoch objects =>
    unfold CustodyWorld.step at he
    dsimp only at he
    split at he
    · next hm =>
      split at he
      · obtain rfl := Option.some.inj he
        exact h
      · next server hr =>
        obtain rfl := Option.some.inj he
        exact { h.letGo hm hr with }
    · contradiction
  | finishRelease object =>
    unfold CustodyWorld.step at he
    dsimp only at he
    split at he
    · obtain rfl := Option.some.inj he
      exact h.finishRelease object
    · contradiction
  | maintain current clock =>
    obtain rfl := Option.some.inj he
    exact h.maintain current clock
  | other next =>
    unfold CustodyWorld.step at he
    dsimp only at he
    split at he
    · next hn =>
      obtain rfl := Option.some.inj he
      exact h.other hn
    · contradiction

lemma Fresh.agreed {w : CustodyWorld} (h : w.Fresh) : w.Agreed cr device := by
  constructor
  · exact fun digest retentionId hk => h.stored _ _ hk
  · intro k row hk
    rw [h.residency] at hk
    cases hk
  · rw [h.calls]
    intro _ hc
    cases hc
  · rw [h.answers]
    intro _ _ hm
    cases hm
  · rw [h.calls]
    intro _ hc
    cases hc
  · rintro o (ho | ⟨p,hp,-⟩)
    · rw [h.begun] at ho
      cases ho
    · rw [h.releases] at hp
      cases hp

variable (cr device) in
/-- In every run in which releases begin only while no `retain` waits, what the client holds as
active the server keeps, through maintenance too; and a release takes no custody but that of the
very ids it names. -/
theorem custody_agrees {start w : CustodyWorld} (hs : start.Fresh)
    (hr : Runs.Run (step cr device) ReleasesAlone start w) :
    (∀ context digest row, w.residency.objects.get (context,digest) = some row →
      row.state = .active →
        (∃ retentionId, w.server.objectCustody.get (device,digest) = some retentionId) ∧
        w.server.objects.contains digest = true ∧
        ∀ current clock,
          (w.server.maintainAt cr current clock).2.objects.contains digest = true) ∧
    ∀ requester epoch objects server, (epoch,objects) ∈ w.releases →
      w.server.releaseRetainedObjects cr requester epoch
        (objects.map RemoteObject.toRelease) = .ok server →
      ∀ owner digest retentionId,
        w.server.objectCustody.get (owner,digest) = some retentionId →
        (∀ o ∈ objects, ¬ (o.deviceId = owner ∧ o.hash = digest ∧ o.retentionId = retentionId)) →
        server.objectCustody.get (owner,digest) = some retentionId := by
  have hw : w.Agreed cr device :=
    Runs.Run.keeps (fun _ _ _ hi ha he => hi.step ha he) hr hs.agreed
  constructor
  · intro context digest row hk hact
    obtain ⟨retentionId,hc,-⟩ := (hw.rows _ row hk).2.2 hact
    have ho := hw.stored digest retentionId hc
    refine ⟨⟨retentionId,hc⟩,ho,fun current clock => ?_⟩
    exact (Server.Store.maintainAt_custody cr w.server current clock).2.2.2 device digest
      retentionId hc ho
  · intro requester epoch objects server _ hrel owner digest retentionId hk hn
    refine ((Server.Store.releaseRetainedObjects_letGo cr hrel).custody _ _).mpr ⟨hk,?_⟩
    intro hmem
    obtain ⟨o,ho,he⟩ := List.mem_map.mp hmem
    unfold RemoteObject.toRelease at he
    injection he with hdev hhash hid
    exact hn o ho ⟨hdev,hhash,hid⟩

/-! ### A grant that its release overtakes -/

def sampleCrates : Crates := tabulated [] [] []

def sampleId (c : Char) : String := String.ofList (List.replicate 64 c)

def sampleConfig : StoredConfig := ⟨"https://server","library","device-a","credential"⟩

def sampleHead : RemoteHead := ⟨"library","epoch",0,sampleId '0',0⟩

/-- A device and a server with one object. -/
def sampleCustody : CustodyWorld where
  server := { (Server.Store.genesis sampleCrates "library" "epoch").addDevice "device-a" with
    objects := Table.empty.upsert (sampleId 'e') [1] }
  residency := .empty
  calls := []
  requests := []
  answers := []
  begun := []
  releases := []
  acknowledged := []
  issued := []

lemma fresh_sampleCustody : sampleCustody.Fresh := by
  refine ⟨rfl,rfl,rfl,rfl,rfl,rfl,?_⟩
  intro k retentionId hk
  cases hk

/-- A call for the object, and the request and response of its page. -/
def sampleCall (waiting : Option ℕ) : RetainCall :=
  ⟨sampleConfig,sampleHead,[[(sampleId 'e',none)]],waiting⟩
def sampleAsked : List CustodyEvent :=
  [.retain sampleConfig sampleHead [(sampleId 'e',none)],.ask (sampleCall none)]
def sampleGrant (n : ℕ) (c : Char) : CustodyEvent := .grant n none fun _ => sampleId c
def sampleTake (n : ℕ) (c : Char) : CustodyEvent :=
  .take (sampleCall (some n)) [⟨sampleId 'e',1,sampleId c⟩]

def sampleReleased : RemoteObject :=
  ⟨"",sampleId 'e',1,sampleId 'b',"device-a",sampleConfig⟩

/-- Of two calls the later one's grant is confirmed and released before the first one's response
comes. -/
def overtaken : List CustodyEvent :=
  sampleAsked ++ [sampleGrant 0 'a'] ++ sampleAsked ++ [sampleGrant 1 'b',sampleTake 1 'b',
    .beginLatestRelease (sampleId 'e') "",.sendRelease "epoch" [sampleReleased],
    .release ⟨"device-a",none⟩ "epoch" [sampleReleased],.finishRelease sampleReleased,
    sampleTake 0 'a']

/-- Where a release begins while a call waits, that call's response may come last: the row is
active again, and the server has none. -/
theorem a_waiting_grant_is_let_go :
    sampleCustody.Fresh ∧ ∃ w,
      Runs.Run (step sampleCrates "device-a") (fun _ _ => True) sampleCustody w ∧
      (∃ row, w.residency.objects.get ("",sampleId 'e') = some row ∧ row.state = .active) ∧
      w.server.objectCustody.get ("device-a",sampleId 'e') = none := by
  have hr : (Runs.steps (step sampleCrates "device-a") sampleCustody overtaken).map
      (fun w => (w.residency.objects.get ("",sampleId 'e'),
        w.server.objectCustody.get ("device-a",sampleId 'e'))) =
      some (some ⟨1,sampleId 'a',.active,2⟩,none) := by
    decide +kernel
  obtain ⟨w,hw,he⟩ := Option.map_eq_some_iff.mp hr
  obtain ⟨hrow,hc⟩ := Prod.mk.inj he
  exact ⟨fresh_sampleCustody,w,.of_steps hw (Runs.meetAll_true _ _),⟨_,hrow,rfl⟩,hc⟩

instance (w : CustodyWorld) : Decidable w.NoneWaiting :=
  inferInstanceAs (Decidable (∀ call ∈ w.calls, call.waiting = none))

instance (w : CustodyWorld) (e : CustodyEvent) : Decidable (w.ReleasesAlone e) :=
  match e with
  | .beginRelease _ | .beginLatestRelease _ _ => inferInstanceAs (Decidable w.NoneWaiting)
  | .retain .. | .ask _ | .grant .. | .take .. | .drop _ | .crash | .sendRelease ..
  | .release .. | .finishRelease _ | .maintain .. | .other _ => .isTrue trivial

theorem custody_agrees_sample :
    ∃ w : CustodyWorld, (∃ retentionId,
        w.server.objectCustody.get ("device-a",sampleId 'e') = some retentionId) ∧
      w.server.objects.contains (sampleId 'e') = true := by
  have hr : (Runs.steps (step sampleCrates "device-a") sampleCustody
      (sampleAsked ++ [sampleGrant 0 'a',sampleTake 0 'a',.maintain 0 0])).map
      (fun w => w.residency.objects.get ("",sampleId 'e')) =
      some (some ⟨1,sampleId 'a',.active,1⟩) := by
    decide +kernel
  have hm : Runs.MeetAll (step sampleCrates "device-a") ReleasesAlone sampleCustody
      (sampleAsked ++ [sampleGrant 0 'a',sampleTake 0 'a',.maintain 0 0]) := by
    decide +kernel
  obtain ⟨w,hw,hrow⟩ := Option.map_eq_some_iff.mp hr
  obtain ⟨hc,ho,-⟩ := (custody_agrees sampleCrates "device-a" fresh_sampleCustody
    (.of_steps hw hm)).1 _ _ _ hrow rfl
  exact ⟨w,hc,ho⟩

end CustodyWorld
end RisuNest.Client
