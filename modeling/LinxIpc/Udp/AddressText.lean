import LinxIpc.Text.Numeral
import LinxIpc.Udp.Sockets
import LinxIpc.Unix.Address

/-!
Internet addresses as text, and ports, in the two byte orders.

`receive` writes the source of a datagram with `inet_ntoa`, and `send` reads its
destination with `inet_pton`.
-/

namespace LinxIpc

open Numeral

/-! ### Octets -/

def digitByte (digit : Nat) : UInt8 := UInt8.ofNat (48 + digit)

theorem digitByte_toNat {digit : Nat} (small : digit < 10) :
    (digitByte digit).toNat = 48 + digit := by
  rw [digitByte, UInt8.toNat_ofNat']
  omega

theorem digit?_eq_some_iff (char : UInt8) (digit : Nat) :
    digit? char = some digit ↔ digit < 10 ∧ char = digitByte digit := by
  rw [digit?]
  constructor
  · intro read
    split at read
    · rename_i range
      cases read
      have small : char.toNat - 48 < 10 := by omega
      refine ⟨small, UInt8.toNat_inj.mp ?_⟩
      rw [digitByte_toNat small]
      omega
    · cases read
  · rintro ⟨small, rfl⟩
    have toNat := digitByte_toNat small
    rw [if_pos (by omega), toNat, Nat.add_sub_cancel_left]

theorem decimal_eq_numeral (number : Nat) :
    decimal number = (numeral 10 number).map digitByte := by
  rw [decimal, toDigits_eq_numeral (by decide), List.map_map]
  refine List.map_congr_left fun digit member => ?_
  have small := (canonical_numeral (by decide) number).small digit member
  rw [Function.comp_apply]
  interval_cases digit <;> rfl

theorem mem_decimal {number : Nat} {byte : UInt8} (member : byte ∈ decimal number) :
    48 ≤ byte.toNat ∧ byte.toNat ≤ 57 := by
  rw [decimal_eq_numeral] at member
  obtain ⟨digit, inNumeral, rfl⟩ := List.mem_map.mp member
  have small := (canonical_numeral (by decide) number).small digit inNumeral
  rw [digitByte_toNat small]
  omega

theorem octet?_eq_some_iff (part : StdString) (number : Nat) :
    octet? part = some number ↔ number ≤ 255 ∧ part = decimal number := by
  have digits := mapM_eq_some_iff digit?_eq_some_iff part
  have whole : ∀ first rest, rest.foldl (fun number digit => number * 10 + digit) first =
      value 10 (first :: rest) := by
    intro first rest
    rw [value, List.foldl_cons, Nat.zero_mul, Nat.zero_add]
  rw [octet?, decimal_eq_numeral]
  constructor
  · intro read
    split at read
    · cases read
    · cases read
    · rename_i first rest mapped
      obtain ⟨small, written⟩ := (digits _).mp mapped
      split at read
      · cases read
      · rename_i leading
        simp only [whole] at read
        split at read
        · rename_i bound
          cases read
          refine ⟨bound, ?_⟩
          have canonical : Canonical 10 (first :: rest) := by
            refine ⟨small, List.cons_ne_nil _ _, ?_⟩
            intro zero
            cases zero
            rw [not_and, not_not] at leading
            rw [leading rfl]
          rw [← eq_numeral (by decide) canonical]
          exact written
        · cases read
  · rintro ⟨bound, written⟩
    have canonical : Canonical 10 (numeral 10 number) := canonical_numeral (by decide) number
    have mapped := (digits _).mpr ⟨canonical.small, written⟩
    have number := value_numeral 10 number
    rw [mapped]
    cases shape : numeral 10 _ with
    | nil => exact absurd shape canonical.nonempty
    | cons first rest =>
        rw [shape] at canonical number
        have leading : ¬ (first = 0 ∧ rest ≠ []) := by
          rintro ⟨rfl, more⟩
          exact more (List.cons_inj_right _ |>.mp (canonical.leading rfl))
        simp only [if_neg leading, whole, number, if_pos bound]

/-! ### Addresses -/

def hostOrder : InAddr → Nat
  | (a, b, c, d) => a.toNat * 2 ^ 24 + b.toNat * 2 ^ 16 + c.toNat * 2 ^ 8 + d.toNat

theorem inAddr_hostOrder (address : InAddr) : inAddr (hostOrder address) = address := by
  obtain ⟨a, b, c, d⟩ := address
  have boundA := a.toNat_lt
  have boundB := b.toNat_lt
  have boundC := c.toNat_lt
  have boundD := d.toNat_lt
  simp only [inAddr, hostOrder, Prod.mk.injEq]
  refine ⟨?_, ?_, ?_, ?_⟩ <;> refine UInt8.toNat_inj.mp ?_ <;> rw [UInt8.toNat_ofNat'] <;> omega

theorem inetNtoa_eq_intercalate (a b c d : UInt8) :
    inetNtoa (a, b, c, d) =
      [46].intercalate ([a.toNat, b.toNat, c.toNat, d.toNat].map decimal) := by
  simp [inetNtoa]

/-- `inet_pton` reads what `inet_ntoa` writes and nothing else, up to a NUL. -/
theorem inetPton_eq_some_iff (ip : StdString) (number : Nat) :
    inetPton ip = some number ↔
      ∃ address, cStr ip = inetNtoa address ∧ number = hostOrder address := by
  have parts := mapM_eq_some_iff octet?_eq_some_iff ((cStr ip).splitOn 46)
  have dotless : ∀ number : Nat, 46 ∉ decimal number := by
    intro number member
    have range := mem_decimal member
    exact absurd range.1 (by decide)
  rw [inetPton]
  constructor
  · intro read
    split at read
    · rename_i a b c d mapped
      cases read
      obtain ⟨bounds, written⟩ := (parts _).mp mapped
      simp only [List.forall_mem_cons] at bounds
      obtain ⟨boundA, boundB, boundC, boundD, -⟩ := bounds
      have fits : ∀ octet ≤ 255, (UInt8.ofNat octet).toNat = octet := by
        intro octet bound
        rw [UInt8.toNat_ofNat']
        omega
      refine ⟨(UInt8.ofNat a, UInt8.ofNat b, UInt8.ofNat c, UInt8.ofNat d), ?_, ?_⟩
      · rw [inetNtoa_eq_intercalate, fits a boundA, fits b boundB, fits c boundC, fits d boundD,
          ← written, List.intercalate_splitOn]
      · rw [hostOrder, fits a boundA, fits b boundB, fits c boundC, fits d boundD]
    · cases read
  · rintro ⟨⟨a, b, c, d⟩, written, rfl⟩
    have mapped := (parts [a.toNat, b.toNat, c.toNat, d.toNat]).mpr ?_
    · rw [mapped]
      rfl
    · constructor
      · intro octet member
        simp only [List.mem_cons, List.not_mem_nil, or_false] at member
        rcases member with rfl | rfl | rfl | rfl <;> exact Nat.le_of_lt_succ (UInt8.toNat_lt _)
      · rw [written, inetNtoa_eq_intercalate, List.splitOn_intercalate]
        · intro part member
          obtain ⟨octet, -, rfl⟩ := List.mem_map.mp member
          exact dotless octet
        · exact List.cons_ne_nil _ _

theorem zero_not_mem_inetNtoa (address : InAddr) : 0 ∉ inetNtoa address := by
  obtain ⟨a, b, c, d⟩ := address
  have digits : ∀ number : Nat, 0 ∉ decimal number := by
    intro number member
    have range := mem_decimal member
    exact absurd range.1 (by decide)
  simp [inetNtoa, digits]

theorem inetPton_inetNtoa (address : InAddr) :
    inetPton (inetNtoa address) = some (hostOrder address) :=
  (inetPton_eq_some_iff _ _).mpr
    ⟨address, cStr_of_not_mem (zero_not_mem_inetNtoa address), rfl⟩

theorem htons_ntohs (port : UInt8 × UInt8) : htons (ntohs port) = port := by
  obtain ⟨high, low⟩ := port
  have boundHigh := high.toNat_lt
  have boundLow := low.toNat_lt
  have whole : (ntohs (high, low)).toNat = high.toNat * 2 ^ 8 + low.toNat := by
    rw [ntohs, UInt16.toNat_ofNat']
    omega
  rw [htons, whole]
  refine Prod.ext (UInt8.toNat_inj.mp ?_) (UInt8.toNat_inj.mp ?_) <;>
    rw [UInt8.toNat_ofNat'] <;> simp only <;> omega

theorem ntohs_htons (port : UInt16) : ntohs (htons port) = port := by
  have bound := port.toNat_lt
  refine UInt16.toNat_inj.mp ?_
  simp only [ntohs, htons, UInt16.toNat_ofNat', UInt8.toNat_ofNat']
  omega

end LinxIpc
