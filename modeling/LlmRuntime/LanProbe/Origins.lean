import LlmRuntime.Base.Ipv4
import Mathlib.Tactic.IntervalCases
import Mathlib.Tactic.Tauto

/-!
# Which requests stay in the LAN

`isLocalOrigin` and the list of external resources of `scripts/lan-probe.js`. Private addresses are
recognised by how their text begins, and so are names that begin like one.
-/

namespace LlmRuntime.LanProbe

/-- `1[6-9]|2\d|3[01]` -/
def secondPart (x y : Char) : Bool :=
  (x == '1' && ['6', '7', '8', '9'].contains y) ||
    (x == '2' && ['0', '1', '2', '3', '4', '5', '6', '7', '8', '9'].contains y) ||
    (x == '3' && ['0', '1'].contains y)

/-- `/^172\.(1[6-9]|2\d|3[01])\./` -/
def startsWith172 : List Char → Bool
  | '1' :: '7' :: '2' :: '.' :: x :: y :: '.' :: _ => secondPart x y
  | _ => false

/-- `/^10\./`, `/^192\.168\./` and `/^172\.(1[6-9]|2\d|3[01])\./` -/
def startsPrivate (host : List Char) : Bool :=
  ['1', '0', '.'].isPrefixOf host || ['1', '9', '2', '.', '1', '6', '8', '.'].isPrefixOf host ||
    startsWith172 host

/-- `hostname` is none where `new URL` throws. -/
def isLocalOrigin (hostname : String → Option String) (url : String) : Bool :=
  match hostname url with
  | some host =>
      host == "localhost" || host == "127.0.0.1" || host == "::1" || host == "[::1]" ||
        startsPrivate host.toList
  | none => false

/-- `report().externalResources`, from the names of the resources. -/
def externalResources (hostname : String → Option String) (names : List String) : List String :=
  names.filter fun name => !isLocalOrigin hostname name

/-! ### Private addresses -/

/-- 10.0.0.0/8 -/
def ten : Ipv4.Block := ⟨⟨10, 0, 0, 0⟩, 8⟩

/-- 172.16.0.0/12 -/
def sixteen : Ipv4.Block := ⟨⟨172, 16, 0, 0⟩, 12⟩

/-- 192.168.0.0/16 -/
def home : Ipv4.Block := ⟨⟨192, 168, 0, 0⟩, 16⟩

def Private (x : Ipv4) : Prop := ten.Contains x ∨ sixteen.Contains x ∨ home.Contains x

/-- A host that need not be reported. -/
def InLan (host : String) : Prop :=
  host = "localhost" ∨ host = "127.0.0.1" ∨ host = "::1" ∨ host = "[::1]" ∨
    ∃ x : Ipv4, host.toList = x.text ∧ Private x

theorem exists_of_secondPart {x y : Char} (h : secondPart x y = true) :
    ∃ n, 16 ≤ n ∧ n ≤ 31 ∧ Nat.toDigits 10 n = [x, y] := by
  simp only [secondPart, Bool.or_eq_true, Bool.and_eq_true, beq_iff_eq, List.contains_iff_mem, List.mem_cons,
    List.not_mem_nil, or_false] at h
  rcases h with (⟨rfl, hy⟩ | ⟨rfl, hy⟩) | ⟨rfl, hy⟩
  · rcases hy with rfl | rfl | rfl | rfl
    · exact ⟨16, by decide, by decide, rfl⟩
    · exact ⟨17, by decide, by decide, rfl⟩
    · exact ⟨18, by decide, by decide, rfl⟩
    · exact ⟨19, by decide, by decide, rfl⟩
  · rcases hy with rfl | rfl | rfl | rfl | rfl | rfl | rfl | rfl | rfl | rfl
    · exact ⟨20, by decide, by decide, rfl⟩
    · exact ⟨21, by decide, by decide, rfl⟩
    · exact ⟨22, by decide, by decide, rfl⟩
    · exact ⟨23, by decide, by decide, rfl⟩
    · exact ⟨24, by decide, by decide, rfl⟩
    · exact ⟨25, by decide, by decide, rfl⟩
    · exact ⟨26, by decide, by decide, rfl⟩
    · exact ⟨27, by decide, by decide, rfl⟩
    · exact ⟨28, by decide, by decide, rfl⟩
    · exact ⟨29, by decide, by decide, rfl⟩
  · rcases hy with rfl | rfl
    · exact ⟨30, by decide, by decide, rfl⟩
    · exact ⟨31, by decide, by decide, rfl⟩

theorem secondPart_of_le {n : Nat} (h : 16 ≤ n) (h' : n ≤ 31) :
    ∃ x y, Nat.toDigits 10 n = [x, y] ∧ secondPart x y = true := by
  interval_cases n <;> exact ⟨_, _, rfl, by decide⟩

theorem startsWith172_text (x : Ipv4) :
    startsWith172 x.text ↔ x.a = 172 ∧ 16 ≤ x.b.val ∧ x.b.val ≤ 31 := by
  constructor
  · intro h
    generalize htext : x.text = host at h
    unfold startsWith172 at h
    split at h
    · rename_i first second rest
      obtain ⟨n, hle, hle', hdigits⟩ := exists_of_secondPart h
      have hprefix : Nat.toDigits 10 172 ++ '.' :: (Nat.toDigits 10 n ++ '.' :: rest) <+: x.text := by
        rw [htext, hdigits]
        exact List.prefix_refl _
      obtain ⟨ha, hrest⟩ := Ipv4.isPrefix_text_iff.mp hprefix
      have hb := ((Ipv4.dotted_isPrefix_iff (Ipv4.dot_not_mem_toDigits _) (Ipv4.dot_not_mem_toDigits _)).mp
        hrest).1
      rw [← Ipv4.toDigits_inj hb]
      exact ⟨Fin.ext ha.symm, hle, hle'⟩
    · exact absurd h Bool.false_ne_true
  · rintro ⟨ha, hle, hle'⟩
    obtain ⟨first, second, hdigits, hsecond⟩ := secondPart_of_le hle hle'
    rw [Ipv4.text, ha, hdigits]
    exact hsecond

/-- Of the addresses exactly the private ones begin like one. -/
theorem startsPrivate_text (x : Ipv4) : startsPrivate x.text ↔ Private x := by
  have hten : ['1', '0', '.'] <+: x.text ↔ x.a = 10 := by
    rw [show ['1', '0', '.'] = Nat.toDigits 10 10 ++ '.' :: [] from rfl, Ipv4.isPrefix_text_iff, Fin.ext_iff]
    exact ⟨fun h => h.1.symm, fun h => ⟨h.symm, List.nil_prefix⟩⟩
  have hhome : ['1', '9', '2', '.', '1', '6', '8', '.'] <+: x.text ↔ x.a = 192 ∧ x.b = 168 := by
    rw [show ['1', '9', '2', '.', '1', '6', '8', '.'] =
        Nat.toDigits 10 192 ++ '.' :: (Nat.toDigits 10 168 ++ '.' :: []) from rfl,
      Ipv4.isPrefix_text_iff,
      Ipv4.dotted_isPrefix_iff (Ipv4.dot_not_mem_toDigits _) (Ipv4.dot_not_mem_toDigits _),
      Fin.ext_iff, Fin.ext_iff]
    exact ⟨fun h => ⟨h.1.symm, (Ipv4.toDigits_inj h.2.1).symm⟩,
      fun h => ⟨h.1.symm, congrArg (Nat.toDigits 10) h.2.symm, List.nil_prefix⟩⟩
  have hsixteen : 16 ≤ x.b.val ∧ x.b.val ≤ 31 ↔ x.b.val / 16 = (16 : Fin 256).val / 16 := by
    have hval : (16 : Fin 256).val = 16 := rfl
    omega
  rw [startsPrivate, Bool.or_eq_true, Bool.or_eq_true, List.isPrefixOf_iff_prefix, List.isPrefixOf_iff_prefix,
    startsWith172_text, hten, hhome, hsixteen, Private, ten, sixteen, home, Ipv4.contains_eight,
    Ipv4.contains_twelve, Ipv4.contains_sixteen]
  tauto

variable {hostname : String → Option String}

theorem isLocalOrigin_iff (url : String) : isLocalOrigin hostname url ↔ ∃ host, hostname url = some host ∧
    (host = "localhost" ∨ host = "127.0.0.1" ∨ host = "::1" ∨ host = "[::1]" ∨
      startsPrivate host.toList) := by
  rw [isLocalOrigin]
  cases hostname url with
  | none => simp
  | some host => simp [or_assoc]

/-- The list of external resources omits none but those in the LAN, if every host that begins like a private
address is an address. -/
theorem externalResources_omits_iff (hostname : String → Option String) (names : List String) :
    (∀ url ∈ names, url ∉ externalResources hostname names →
      ∃ host, hostname url = some host ∧ InLan host) ↔
    ∀ url ∈ names, ∀ host, hostname url = some host → startsPrivate host.toList →
      ∃ x : Ipv4, host.toList = x.text := by
  have homits : ∀ url ∈ names, url ∉ externalResources hostname names ↔ isLocalOrigin hostname url := by
    intro url hurl
    rw [externalResources, List.mem_filter, Bool.not_eq_true', not_and, Bool.not_eq_false]
    exact ⟨fun h => h hurl, fun h _ => h⟩
  constructor
  · intro h url hurl host hhost hprivate
    have hlocal : isLocalOrigin hostname url :=
      (isLocalOrigin_iff url).mpr ⟨host, hhost, .inr (.inr (.inr (.inr hprivate)))⟩
    obtain ⟨host', hhost', hlan⟩ := h url hurl ((homits url hurl).mpr hlocal)
    obtain rfl : host = host' := Option.some.inj (hhost.symm.trans hhost')
    rcases hlan with rfl | rfl | rfl | rfl | ⟨x, hx, -⟩
    · exact absurd hprivate (by decide)
    · exact ⟨⟨127, 0, 0, 1⟩, by decide⟩
    · exact absurd hprivate (by decide)
    · exact absurd hprivate (by decide)
    · exact ⟨x, hx⟩
  · intro h url hurl homitted
    obtain ⟨host, hhost, hlocal⟩ := (isLocalOrigin_iff url).mp ((homits url hurl).mp homitted)
    refine ⟨host, hhost, ?_⟩
    rcases hlocal with hname | hname | hname | hname | hprivate
    · exact .inl hname
    · exact .inr (.inl hname)
    · exact .inr (.inr (.inl hname))
    · exact .inr (.inr (.inr (.inl hname)))
    · obtain ⟨x, hx⟩ := h url hurl host hhost hprivate
      rw [hx, startsPrivate_text] at hprivate
      exact .inr (.inr (.inr (.inr ⟨x, hx, hprivate⟩)))

/-- A name that begins like an address of 10.0.0.0/8. -/
theorem externalResources_omits_name :
    externalResources (fun _ => some "10.example.com") ["https://10.example.com/model.gguf"] = [] ∧
      ¬ InLan "10.example.com" := by
  refine ⟨by decide, ?_⟩
  intro hlan
  rcases hlan with hname | hname | hname | hname | ⟨x, hx, -⟩
  · exact absurd hname (by decide)
  · exact absurd hname (by decide)
  · exact absurd hname (by decide)
  · exact absurd hname (by decide)
  · have hletter : 'e' ∈ x.text := by
      rw [← hx]
      decide
    rcases Ipv4.mem_text hletter with hdigit | hdot
    · exact absurd hdigit (by decide)
    · exact absurd hdot (by decide)

end LlmRuntime.LanProbe
