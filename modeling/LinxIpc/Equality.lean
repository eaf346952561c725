import LinxIpc.Identifier
import LinxIpc.Relation.Wildcard
import Mathlib.Data.Set.Basic

/-!
`IIdentifier::operator==` and `LinxClient::operator==`.

Both compare objects: an object equals itself, objects of different types are
different, and otherwise `isEqual` decides.  Objects are named by their addresses.
-/

namespace LinxIpc

/-! ### The source -/

inductive IIdentifier where
  | unixInfo (info : UnixInfo)
  | portInfo (info : PortInfo)
  deriving DecidableEq

def UnixInfo.default : UnixInfo := { value := [] }

def PortInfo.default : PortInfo := { ip := ofAscii "0.0.0.0", port := 0, isRestrictedIp := false }

inductive IIdentifier.Built : IIdentifier → Prop where
  | unixDefault : Built (.unixInfo .default)
  | unixInfo (value : StdString) : Built (.unixInfo { value := value })
  | portDefault : Built (.portInfo .default)
  | portInfo (ip : StdString) (port : UInt16) : Built (.portInfo (.create ip port))

/-- `*this == other`, where the two objects lie at these addresses. -/
def IIdentifier.operatorEq (objects : Nat → IIdentifier) (this other : Nat) : Bool :=
  if this = other then true
  else
    match objects this, objects other with
    | .unixInfo self, .unixInfo info => self.isEqual info
    | .portInfo self, .portInfo info => self.isEqual info
    | .unixInfo _, .portInfo _ | .portInfo _, .unixInfo _ => false

/-- `socket` is the address of the socket that the client shares. -/
structure GenericClient (ι : Type) where
  clientId : StdString
  socket : Nat
  identifier : ι
  deriving DecidableEq

/-- The identifiers are members of the two clients, so they are different objects
of one type. -/
def GenericClient.isEqual {ι : Type} [BEq ι] (self other : GenericClient ι) : Bool :=
  self.socket == other.socket && self.identifier == other.identifier

inductive LinxClient where
  | unix (client : GenericClient UnixInfo)
  | udp (client : GenericClient PortInfo)
  deriving DecidableEq

def LinxClient.operatorEq (objects : Nat → LinxClient) (this other : Nat) : Bool :=
  if this = other then true
  else
    match objects this, objects other with
    | .unix self, .unix client => self.isEqual client
    | .udp self, .udp client => self.isEqual client
    | .unix _, .udp _ | .udp _, .unix _ => false

def LinxClient.identifier : LinxClient → IIdentifier
  | .unix client => .unixInfo client.identifier
  | .udp client => .portInfo client.identifier

def LinxClient.socket : LinxClient → Nat
  | .unix client => client.socket
  | .udp client => client.socket

/-! ### What the comparisons see -/

namespace IIdentifier

/-- The name or the port has to be the same; the address of a restricted
`PortInfo` agrees with every other. -/
def view : Wildcard IIdentifier (StdString ⊕ UInt16) StdString where
  key
    | .unixInfo info => .inl info.value
    | .portInfo info => .inr info.port
  content
    | .unixInfo _ => []
    | .portInfo info => info.ip
  wild
    | .unixInfo _ => False
    | .portInfo info => info.isRestrictedIp = true

theorem unixInfo_agrees_iff (self other : UnixInfo) :
    view.Agrees (.unixInfo self) (.unixInfo other) ↔ self.isEqual other = true := by
  simp [Wildcard.Agrees, view, UnixInfo.isEqual]

theorem portInfo_agrees_iff (self other : PortInfo) :
    view.Agrees (.portInfo self) (.portInfo other) ↔ self.isEqual other = true := by
  cases restricted : self.isRestrictedIp <;> cases otherRestricted : other.isRestrictedIp <;>
    simp [Wildcard.Agrees, view, PortInfo.isEqual, restricted, otherRestricted, and_comm]

theorem operatorEq_sees (objects : Nat → IIdentifier) :
    view.Sees objects (operatorEq objects) := by
  intro this other
  unfold operatorEq
  by_cases same : this = other
  · subst same
    exact iff_of_true (if_pos rfl) (Wildcard.agrees_refl _)
  · rw [if_neg same]
    cases objects this with
    | unixInfo self =>
        cases objects other with
        | unixInfo info => exact (unixInfo_agrees_iff self info).symm
        | portInfo info => simp [Wildcard.Agrees, view]
    | portInfo self =>
        cases objects other with
        | unixInfo info => simp [Wildcard.Agrees, view]
        | portInfo info => exact (portInfo_agrees_iff self info).symm

def RestrictedBetween (left middle right : IIdentifier) : Prop :=
  ∃ a b c : PortInfo, left = .portInfo a ∧ middle = .portInfo b ∧ right = .portInfo c ∧
    b.isRestrictedIp = true ∧ a.isRestrictedIp = false ∧ c.isRestrictedIp = false ∧ a.ip ≠ c.ip

theorem bridges_iff {left middle right : IIdentifier} (first : view.key left = view.key middle)
    (second : view.key middle = view.key right) :
    view.Bridges left middle right ↔ RestrictedBetween left middle right := by
  constructor
  · rintro ⟨wild, leftPlain, rightPlain, different⟩
    cases middle with
    | unixInfo info => exact wild.elim
    | portInfo b =>
        cases left with
        | unixInfo info => cases first
        | portInfo a =>
            cases right with
            | unixInfo info => cases second
            | portInfo c =>
                exact ⟨a, b, c, rfl, rfl, rfl, wild, Bool.eq_false_iff.mpr leftPlain,
                  Bool.eq_false_iff.mpr rightPlain, different⟩
  · rintro ⟨a, b, c, rfl, rfl, rfl, wild, leftPlain, rightPlain, different⟩
    exact ⟨wild, Bool.eq_false_iff.mp leftPlain, Bool.eq_false_iff.mp rightPlain, different⟩

theorem Built.isRestrictedIp {info : PortInfo} (built : Built (.portInfo info)) :
    info.isRestrictedIp = (isBroadcastIp info.ip || isMulticastIp info.ip) := by
  cases built with
  | portDefault => decide
  | portInfo ip port => rfl

theorem operatorEq_trans_iff {objects : Nat → IIdentifier} {a b c : Nat}
    (first : operatorEq objects a b = true) (second : operatorEq objects b c = true) :
    operatorEq objects a c = true ↔
      ¬ RestrictedBetween (objects a) (objects b) (objects c) := by
  have sees := operatorEq_sees objects
  have toMiddle := (sees a b).mp first
  have fromMiddle := (sees b c).mp second
  rw [sees.trans_iff first second, bridges_iff toMiddle.1 fromMiddle.1]

end IIdentifier

namespace LinxClient

def view : Wildcard LinxClient (Nat × (StdString ⊕ UInt16)) StdString where
  key client := (client.socket, IIdentifier.view.key client.identifier)
  content client := IIdentifier.view.content client.identifier
  wild client := IIdentifier.view.wild client.identifier

theorem view_agrees_iff (self other : LinxClient) :
    view.Agrees self other ↔
      self.socket = other.socket ∧ IIdentifier.view.Agrees self.identifier other.identifier := by
  simp only [Wildcard.Agrees, view, Prod.mk.injEq, and_assoc]

theorem operatorEq_sees (objects : Nat → LinxClient) :
    view.Sees objects (operatorEq objects) := by
  intro this other
  unfold operatorEq
  by_cases same : this = other
  · subst same
    exact iff_of_true (if_pos rfl) (Wildcard.agrees_refl _)
  · rw [if_neg same, view_agrees_iff]
    cases objects this with
    | unix self =>
        cases objects other with
        | unix client =>
            simp only [GenericClient.isEqual, Bool.and_eq_true, beq_iff_eq]
            exact and_congr_right fun _ => (IIdentifier.unixInfo_agrees_iff _ _).symm
        | udp client => simp [Wildcard.Agrees, IIdentifier.view, identifier]
    | udp self =>
        cases objects other with
        | unix client => simp [Wildcard.Agrees, IIdentifier.view, identifier]
        | udp client =>
            simp only [GenericClient.isEqual, Bool.and_eq_true, beq_iff_eq]
            exact and_congr_right fun _ => (IIdentifier.portInfo_agrees_iff _ _).symm

theorem operatorEq_trans_iff {objects : Nat → LinxClient} {a b c : Nat}
    (first : operatorEq objects a b = true) (second : operatorEq objects b c = true) :
    operatorEq objects a c = true ↔ ¬ IIdentifier.RestrictedBetween (objects a).identifier
      (objects b).identifier (objects c).identifier := by
  have sees := operatorEq_sees objects
  have toMiddle := Prod.mk.inj ((sees a b).mp first).1
  have fromMiddle := Prod.mk.inj ((sees b c).mp second).1
  rw [sees.trans_iff first second]
  exact not_congr (IIdentifier.bridges_iff toMiddle.2 fromMiddle.2)

theorem operatorEq_iff_same {objects : Nat → LinxClient}
    (ownSockets : ∀ a b, a ≠ b → (objects a).socket ≠ (objects b).socket) (a b : Nat) :
    operatorEq objects a b = true ↔ a = b := by
  constructor
  · intro equal
    rw [operatorEq_sees, view_agrees_iff] at equal
    by_contra different
    exact ownSockets a b different equal.1
  · rintro rfl
    exact if_pos rfl

end LinxClient

/-- Both comparisons are reflexive and symmetric, and transitive except across a
restricted address; so they are equivalences among ordinary addresses and names,
and among clients that share no socket. -/
theorem operatorEq_laws (objects : Nat → IIdentifier) (clients : Nat → LinxClient) :
    ((∀ a, IIdentifier.operatorEq objects a a = true) ∧
      (∀ a b, IIdentifier.operatorEq objects a b = IIdentifier.operatorEq objects b a) ∧
      (∀ a b c, IIdentifier.operatorEq objects a b = true →
        IIdentifier.operatorEq objects b c = true →
          (IIdentifier.operatorEq objects a c = true ↔
            ¬ IIdentifier.RestrictedBetween (objects a) (objects b) (objects c))) ∧
      ∀ among : Set Nat, (∀ a ∈ among, ∀ info, objects a = .portInfo info →
          info.isRestrictedIp = false) →
        Equivalence fun a b : among => IIdentifier.operatorEq objects a b = true) ∧
    ((∀ a, LinxClient.operatorEq clients a a = true) ∧
      (∀ a b, LinxClient.operatorEq clients a b = LinxClient.operatorEq clients b a) ∧
      (∀ a b c, LinxClient.operatorEq clients a b = true →
        LinxClient.operatorEq clients b c = true →
          (LinxClient.operatorEq clients a c = true ↔ ¬ IIdentifier.RestrictedBetween
            (clients a).identifier (clients b).identifier (clients c).identifier)) ∧
      ((∀ a b, a ≠ b → (clients a).socket ≠ (clients b).socket) →
        ∀ a b, LinxClient.operatorEq clients a b = true ↔ a = b)) ∧
    ∀ info, IIdentifier.Built (.portInfo info) →
      info.isRestrictedIp = (isBroadcastIp info.ip || isMulticastIp info.ip) := by
  have identifiersSee := IIdentifier.operatorEq_sees objects
  have clientsSee := LinxClient.operatorEq_sees clients
  refine ⟨⟨identifiersSee.refl, identifiersSee.comm, ?_, ?_⟩,
    ⟨clientsSee.refl, clientsSee.comm, ?_, LinxClient.operatorEq_iff_same⟩,
    fun _ => IIdentifier.Built.isRestrictedIp⟩
  · intro a b c first second
    exact IIdentifier.operatorEq_trans_iff first second
  · intro among ordinary
    constructor
    · intro a
      exact identifiersSee.refl a
    · intro a b equal
      rw [identifiersSee.comm]
      exact equal
    · intro a b c first second
      refine (IIdentifier.operatorEq_trans_iff first second).mpr ?_
      rintro ⟨left, middle, right, -, same, -, restricted, -⟩
      rw [ordinary b b.property middle same] at restricted
      cases restricted
  · intro a b c first second
    exact LinxClient.operatorEq_trans_iff first second

def groupObjects : Nat → IIdentifier
  | 0 => .portInfo (.create (ofAscii "239.0.0.1") 80)
  | 1 => .portInfo (.create (ofAscii "10.0.0.1") 80)
  | _ => .portInfo (.create (ofAscii "239.0.0.2") 80)

theorem operatorEq_laws_group :
    IIdentifier.operatorEq groupObjects 0 2 = true ↔ ¬ IIdentifier.RestrictedBetween
      (groupObjects 0) (groupObjects 1) (groupObjects 2) :=
  (operatorEq_laws groupObjects (fun _ => .unix ⟨[], 0, .default⟩)).1.2.2.1 0 1 2 (by decide)
    (by decide)

def twoHosts : Nat → PortInfo
  | 0 => .create (ofAscii "10.0.0.1") 80
  | 1 => .create (ofAscii "239.0.0.1") 80
  | _ => .create (ofAscii "10.0.0.2") 80

theorem operatorEq_not_transitive :
    (IIdentifier.operatorEq (fun a => .portInfo (twoHosts a)) 0 1 = true ∧
      IIdentifier.operatorEq (fun a => .portInfo (twoHosts a)) 1 2 = true ∧
      IIdentifier.operatorEq (fun a => .portInfo (twoHosts a)) 0 2 = false) ∧
    LinxClient.operatorEq (fun a => .udp ⟨[], 5, twoHosts a⟩) 0 1 = true ∧
      LinxClient.operatorEq (fun a => .udp ⟨[], 5, twoHosts a⟩) 1 2 = true ∧
      LinxClient.operatorEq (fun a => .udp ⟨[], 5, twoHosts a⟩) 0 2 = false := by
  decide

end LinxIpc
