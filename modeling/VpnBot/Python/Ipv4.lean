import VpnBot.Python.NetworkSets

/-!
# IPv4 networks as text

`str` and the constructor of Python's `IPv4Network`: dotted quads, a prefix length or a mask after
the slash, and host bits that are an error (`strict`) or are cleared.  `parse_text` is the round
trip; `textCover` is the set of addresses of a list of texts.
-/

namespace Py

abbrev IPv4Network := Network 32

namespace IPv4

/-! ### Rendering -/

/-- The four bytes of an address. -/
def octets (a : ℕ) : List ℕ := [a / 2 ^ 24, a / 2 ^ 16 % 256, a / 2 ^ 8 % 256, a % 256]

/-- `str` of an address. -/
def addressText (a : ℕ) : Text := join '.' ((octets a).map natText)

/-- `str` of a network. -/
def text (n : IPv4Network) : Text := join '/' [addressText n.addr, natText n.prefixlen]

/-! ### Parsing -/

/-- One byte of a dotted quad: at most three ASCII digits, no leading zero, at most 255. -/
def parseOctet (t : Text) : Option ℕ :=
  if !isDecimal t || 3 < t.length || (t ≠ ['0'] && t.head? = some '0') || 255 < decimalValue t
  then none else some (decimalValue t)

/-- A dotted quad. -/
def parseAddress (t : Text) : Option ℕ :=
  match (splitAt '.' t).mapM parseOctet with
  | some [a, b, c, d] => some (a * 2 ^ 24 + b * 2 ^ 16 + c * 2 ^ 8 + d)
  | _ => none

/-- The prefix length whose netmask is the given address. -/
def prefixOfMask (mask : ℕ) : Option ℕ :=
  (List.range 33).find? fun p => mask = 2 ^ 32 - 2 ^ (32 - p)

/-- What stands after the slash: a prefix length, or else a netmask or a hostmask. -/
def parseMask (t : Text) : Option ℕ :=
  if isDecimal t && decimalValue t ≤ 32 then some (decimalValue t)
  else (parseAddress t).bind fun mask => prefixOfMask mask <|> prefixOfMask (2 ^ 32 - 1 - mask)

/-- The network of prefix length `p` around an address, if the address has no host bits or these
may be cleared. -/
def ofParts (strict : Bool) (a p : ℕ) : Option IPv4Network :=
  if h : a < 2 ^ 32 ∧ p ≤ 32 then
    let n := Network.around a p h.1 h.2
    if strict && n.addr ≠ a then none else some n
  else none

/-- `IPv4Network(t, strict=strict)`; `none` is the `ValueError`. -/
def parse (strict : Bool) (t : Text) : Option IPv4Network :=
  match splitAt '/' t with
  | [a] => (parseAddress a).bind fun a => ofParts strict a 32
  | [a, m] => (parseAddress a).bind fun a => (parseMask m).bind fun p => ofParts strict a p
  | _ => none

/-! ### The round trip -/

theorem parseOctet_natText {n : ℕ} (h : n ≤ 255) : parseOctet (natText n) = some n := by
  have hlen : ¬ 3 < (natText n).length := not_lt.2 ((length_natText_le_iff (by decide)).2 (by omega))
  have hzero : ¬ (natText n ≠ ['0'] ∧ (natText n).head? = some '0') := fun hz =>
    hz.1 (natText_eq_of_head hz.2)
  simp only [parseOctet, isDecimal_natText, decimalValue_natText]
  simp [hlen, not_lt.2 h]
  exact fun h1 h2 => absurd ⟨h1, h2⟩ hzero

theorem parseAddress_addressText {a : ℕ} (h : a < 2 ^ 32) :
    parseAddress (addressText a) = some a := by
  have hsplit : splitAt '.' (addressText a) = (octets a).map natText := by
    refine splitAt_join (by simp [octets]) fun t ht => ?_
    obtain ⟨n, -, rfl⟩ := List.mem_map.1 ht
    exact not_mem_natText rfl n
  have h1 := parseOctet_natText (n := a / 2 ^ 24) (by omega)
  have h2 := parseOctet_natText (n := a / 2 ^ 16 % 256) (by omega)
  have h3 := parseOctet_natText (n := a / 2 ^ 8 % 256) (by omega)
  have h4 := parseOctet_natText (n := a % 256) (by omega)
  rw [parseAddress, hsplit, octets]
  simp only [List.map_cons, List.map_nil, List.mapM_cons, List.mapM_nil, h1, h2, h3, h4,
    Option.pure_def, Option.bind_eq_bind, Option.bind_some, Option.some.injEq]
  omega

theorem parseMask_natText {p : ℕ} (h : p ≤ 32) : parseMask (natText p) = some p := by
  simp [parseMask, h]

theorem ofParts_self (strict : Bool) (n : IPv4Network) :
    ofParts strict n.addr n.prefixlen = some n := by
  have hround : Network.around n.addr n.prefixlen n.addr_lt n.prefixlen_le = n :=
    Network.eq_of_mem rfl (Network.mem_around _ _ _ _) n.addr_mem
  have hn : ((Network.around n.addr n.prefixlen n.addr_lt n.prefixlen_le).addr ≠ n.addr) = False := by
    rw [hround]
    simp
  rw [ofParts, dif_pos ⟨n.addr_lt, n.prefixlen_le⟩]
  simp only [hround]
  simp

/-- **Parsing the text of a network gives the network back.** -/
@[simp] theorem parse_text (strict : Bool) (n : IPv4Network) : parse strict (text n) = some n := by
  have hsplit : splitAt '/' (text n) = [addressText n.addr, natText n.prefixlen] := by
    refine splitAt_join (by simp) fun t ht => ?_
    rcases List.mem_cons.1 ht with rfl | ht
    · simp only [addressText, join, octets, List.map_cons, List.map_nil, List.intercalate]
      simp [not_mem_natText (c := '/') rfl]
    · rw [List.mem_singleton.1 ht]
      exact not_mem_natText rfl _
  rw [parse, hsplit]
  simp only [parseAddress_addressText n.addr_lt, parseMask_natText n.prefixlen_le,
    Option.bind_some, ofParts_self]

theorem text_injective : Function.Injective text := fun n m h =>
  Option.some.inj (by rw [← parse_text false n, h, parse_text])

/-- The addresses of a list of network texts. -/
def textCover (l : List Text) : Set ℕ := {a | ∃ t ∈ l, ∃ n, parse false t = some n ∧ a ∈ n.addresses}

@[simp] theorem textCover_map_text (l : List IPv4Network) :
    textCover (l.map text) = Network.cover l := by
  ext a
  simp [textCover, Network.mem_cover]

example : parse true "10.0.0.0/255.0.0.0".toList = parse false "10.9.9.9/8".toList := by decide

end IPv4

end Py
