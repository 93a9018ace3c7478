import OrpcWire.Proofs.Binding.DualStringArray

/-!
# Hosts and ports

An exporter names hosts and a port, and an importer takes both out of the addresses it receives. An
address is cut at its first opening and its last closing bracket, so a host may contain anything but
an opening bracket: closing ones, digits, or nothing at all. The port is put down in decimal, in
which there are no brackets, and `Decimal.parse?_toDigits` reads it back.
-/

namespace OrpcWire

namespace Decimal

theorem parse?_of_digits {limit : Nat} {chars : List Char} (hne : chars ≠ [])
    (hdigits : ∀ c ∈ chars, c.isDigit = true) (hlimit : Nat.ofDigitChars 10 chars 0 ≤ limit) :
    parse? limit chars = some (Nat.ofDigitChars 10 chars 0) := by
  unfold parse?
  extract_lets digits
  have hsame : digits = chars := by
    unfold digits
    split
    · exact absurd (hdigits '+' List.mem_cons_self) (by decide)
    · rfl
  have hspells : digits ≠ [] ∧ digits.all Char.isDigit = true ∧
      Nat.ofDigitChars 10 digits 0 ≤ limit := by
    rw [hsame]
    exact ⟨hne, List.all_eq_true.2 hdigits, hlimit⟩
  rw [if_pos hspells, hsame]

/-- The digits of a number spell it. -/
theorem parse?_toDigits {limit n : Nat} (h : n ≤ limit) :
    parse? limit (Nat.toDigits 10 n) = some n := by
  have hnumber : Nat.ofDigitChars 10 (Nat.toDigits 10 n) 0 = n := Nat.ofDigitChars_ten_toDigits
  have hdigits : ∀ c ∈ Nat.toDigits 10 n, c.isDigit = true :=
    fun c hc => Nat.isDigit_of_mem_toDigits (by decide) (by decide) hc
  rw [parse?_of_digits Nat.toDigits_ne_nil hdigits (by rwa [hnumber]), hnumber]

end Decimal

namespace StringBinding

/-! ### Cutting addresses -/

section

variable {host : List Char}

theorem forall_ne_of_plain (h : '[' ∉ host) : ∀ c ∈ host, decide (c ≠ '[') = true := by
  intro c hc
  rw [decide_eq_true_eq]
  rintro rfl
  exact h hc

theorem hostChars_of_plain (h : '[' ∉ host) : hostChars host = host := by
  have happend : (host ++ []).takeWhile (· ≠ '[') = host ++ [].takeWhile (· ≠ '[') :=
    List.takeWhile_append_of_pos (forall_ne_of_plain h)
  rwa [List.append_nil, List.takeWhile_nil, List.append_nil] at happend

theorem dropWhile_of_plain (h : '[' ∉ host) (behind : List Char) :
    (host ++ behind).dropWhile (· ≠ '[') = behind.dropWhile (· ≠ '[') :=
  List.dropWhile_append_of_pos (forall_ne_of_plain h)

theorem portChars_of_plain (h : '[' ∉ host) : portChars host = none := by
  have hnone := dropWhile_of_plain h []
  rw [List.append_nil] at hnone
  unfold portChars
  rw [hnone]
  rfl

theorem hostChars_bracketed (h : '[' ∉ host) (behind : List Char) :
    hostChars (host ++ '[' :: behind) = host := by
  have hplain := hostChars_of_plain h
  unfold hostChars at hplain ⊢
  rw [List.takeWhile_append, hplain, if_pos rfl]
  simp

theorem portChars_bracketed (h : '[' ∉ host) (between : List Char) :
    portChars (host ++ '[' :: (between ++ [']'])) = some between := by
  have hopen : (host ++ '[' :: (between ++ [']'])).dropWhile (· ≠ '[') =
      '[' :: (between ++ [']']) := by
    rw [dropWhile_of_plain h]
    simp
  have hclose : (between ++ [']']).reverse.dropWhile (· ≠ ']') = ']' :: between.reverse := by
    rw [List.reverse_append]
    simp
  unfold portChars
  rw [hopen]
  simp only [hclose, List.reverse_reverse]

end

/-! ### Addresses of hosts -/

variable {host : String}

theorem toList_networkAddr_tcp (host : String) (port : UInt16) :
    (tcp host (some port)).networkAddr.toList = host.toList ++
      '[' :: (Nat.toDigits 10 port.toNat ++ [']']) := by
  simp [tcp, Nat.toList_repr]

theorem host_port_tcp (h : '[' ∉ host.toList) (port : UInt16) :
    (tcp host (some port)).host = host ∧ (tcp host (some port)).port = some port := by
  have hport : port.toNat ≤ 65535 := Nat.le_of_lt_succ port.toNat_lt
  constructor
  · rw [StringBinding.host, toList_networkAddr_tcp, hostChars_bracketed h, String.ofList_toList]
  · rw [StringBinding.port, toList_networkAddr_tcp, portChars_bracketed h]
    simp only [Option.bind_eq_bind, Option.bind_some, Decimal.parse?_toDigits hport]
    exact congrArg some UInt16.ofNat_toNat

theorem host_port_tcp_none (h : '[' ∉ host.toList) :
    (tcp host none).host = host ∧ (tcp host none).port = none := by
  constructor
  · rw [StringBinding.host, tcp, hostChars_of_plain h, String.ofList_toList]
  · rw [StringBinding.port, tcp, portChars_of_plain h]
    rfl

theorem nul_notMem_tcp (h : '\x00' ∉ host.toList) (port : UInt16) :
    '\x00' ∉ (tcp host (some port)).networkAddr.toList := by
  rw [toList_networkAddr_tcp]
  intro hmem
  rcases List.mem_append.1 hmem with hmem | hmem
  · exact h hmem
  · rcases List.mem_cons.1 hmem with hmem | hmem
    · exact absurd hmem (by decide)
    · rcases List.mem_append.1 hmem with hmem | hmem
      · exact absurd (Nat.isDigit_of_mem_toDigits (by decide) (by decide) hmem) (by decide)
      · exact absurd hmem (by decide)

end StringBinding

namespace DualStringArray

variable {hosts : List String} {port : UInt16}

theorem encodable_ofHosts (hhosts : ∀ host ∈ hosts, '\x00' ∉ host.toList)
    (hentries : (ofHosts hosts port).numEntries ≤ 65535) : (ofHosts hosts port).Encodable where
  strings := by
    intro binding hmem
    obtain ⟨host, hhost, rfl⟩ := List.mem_map.1 hmem
    exact ⟨by simp [StringBinding.tcp, Tower.tcp],
      StringBinding.nul_notMem_tcp (hhosts host hhost) port⟩
  security := by
    intro binding hmem
    obtain rfl := List.mem_singleton.1 hmem
    exact ⟨by decide, by decide⟩
  entries := hentries

/-- The hosts and the port of an exporter reach the importer. If no host has an opening bracket or a
U+0000 in it and the list is not too long, it can be written, at any position and in any byte order,
and what is read has one string binding for each host, in the same order, with that host and the
port. Without a port, an address is its host. -/
theorem read_ofHosts :
    (∀ (hosts : List String) (port : UInt16),
      (∀ host ∈ hosts, '[' ∉ host.toList ∧ '\x00' ∉ host.toList) →
      (ofHosts hosts port).numEntries ≤ 65535 → ∃ layout, (ofHosts hosts port).encode = .ok layout ∧
        ∀ (order : ByteOrder) (position : Nat) (trailing : List UInt8), ∃ received,
          read.run order ⟨position, layout.render order position ++ trailing⟩ =
            .ok (received, ⟨position + (layout.render order position).length, trailing⟩) ∧
          received.stringBindings.map (fun binding => (binding.host, binding.port)) =
            hosts.map fun host => (host, some port)) ∧
    ∀ host : String, '[' ∉ host.toList →
      (StringBinding.tcp host none).host = host ∧ (StringBinding.tcp host none).port = none := by
  refine ⟨fun hosts port hhosts hentries => ?_, fun host => StringBinding.host_port_tcp_none⟩
  have hencodable := encodable_ofHosts (fun host hmem => (hhosts host hmem).2) hentries
  refine ⟨_, (encode_eq_ok_iff _ _).2 ⟨hencodable, rfl⟩, fun order position trailing => ?_⟩
  have hbetween :=
    Layout.between_render order position ((ofHosts hosts port).wireUnits.map .u16) trailing
  refine ⟨ofHosts hosts port, read_finds hencodable order _ _ hbetween, ?_⟩
  show (hosts.map fun host => StringBinding.tcp host (some port)).map _ = _
  rw [List.map_map]
  refine List.map_congr_left fun host hmem => ?_
  obtain ⟨hhost, hport⟩ := StringBinding.host_port_tcp (hhosts host hmem).1 port
  exact Prod.ext hhost hport

/-- A host with closing brackets and digits, one that takes two units for a character, and one
without a name. -/
theorem read_ofHosts_brackets :
    let hosts := ["a]80]", "😀", ""]
    (ofHosts hosts 65535).numEntries ≤ 65535 ∧
      ∃ layout received next, (ofHosts hosts 65535).encode = .ok layout ∧
        read.run .big ⟨6, layout.render .big 6 ++ [0xFF]⟩ = .ok (received, next) ∧
        received.stringBindings.map (fun binding => (binding.host, binding.port)) =
          [("a]80]", some 65535), ("😀", some 65535), ("", some 65535)] := by
  intro hosts
  have hentries : (ofHosts hosts 65535).numEntries ≤ 65535 := by decide
  have hhosts : ∀ host ∈ hosts, '[' ∉ host.toList ∧ '\x00' ∉ host.toList := by decide
  obtain ⟨layout, hencode, hread⟩ := read_ofHosts.1 hosts 65535 hhosts hentries
  obtain ⟨received, hrun, hreceived⟩ := hread .big 6 [0xFF]
  exact ⟨hentries, layout, received, _, hencode, hrun, hreceived⟩

end DualStringArray

end OrpcWire
