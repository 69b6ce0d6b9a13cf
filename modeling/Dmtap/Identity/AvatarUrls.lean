import Mathlib.Data.Bool.AllAny
import Dmtap.Identity.AvatarTargets

/-! URLs that lead to an internal target. The guard takes them apart as they are put together here,
so its verdict is the one on the host. -/
namespace Dmtap.Identity
open Lib Lib.Inet

section Spellings

def isGenDelim (c : Char) : Bool := ":/?#[]@".toList.contains c

/-- What a zone leaves to the URL around it. -/
def isZoneDelim (c : Char) : Bool := "/?#]@".toList.contains c

/-- A host that names an internal target. -/
inductive InternalHost
  | ipv4 (text : List Char) (value : ℕ) (spelled : inetAton text = some value)
      (internal : InternalV4 value) (trailingDot : Bool)
  | localhost (text : List Char) (clear : ∀ c ∈ text, isGenDelim c = false)
      (named : NamedLocalhost text) (trailingDot : Bool)
  | ipv6 (text : List Char) (ip : Ipv6Addr) (spelled : Ipv6Text text ip)
      (internal : InternalV6 ip.value) (zone : Option (List Char))
      (clear : ∀ z ∈ zone, ∀ c ∈ z, isZoneDelim c = false)

namespace InternalHost

def dotted (trailingDot : Bool) (text : List Char) : List Char :=
  if trailingDot then text ++ ['.'] else text

def zoned (zone : Option (List Char)) (text : List Char) : List Char :=
  match zone with
  | none => text
  | some z => text ++ '%' :: z

def name : InternalHost → List Char
  | .ipv4 text _ _ _ trailingDot => dotted trailingDot text
  | .localhost text _ _ trailingDot => dotted trailingDot text
  | .ipv6 text _ _ _ zone _ => zoned zone text

def isBracketed : InternalHost → Bool
  | .ipv6 .. => true
  | _ => false

def text (h : InternalHost) : List Char :=
  if h.isBracketed then '[' :: h.name ++ [']'] else h.name

/-- Nothing stands behind the name, or a zone that looks like a name under `localhost`. -/
def Undisguised : InternalHost → Prop
  | .ipv4 _ _ _ _ trailingDot => trailingDot = false
  | .localhost _ _ _ trailingDot => trailingDot = false
  | .ipv6 _ _ _ _ zone _ => ∀ z ∈ zone, ".localhost".toList <:+ z.map Char.toLower

theorem getLast?_dotted {text : List Char} : (dotted true text).getLast? = some '.' := by
  simp [dotted]

theorem judgeHost_iff (h : InternalHost) :
    judgeHost h.name = .error .avatarUrlUnsafe ↔ h.Undisguised := by
  cases h with
  | ipv4 text value spelled internal trailingDot =>
    cases trailingDot with
    | false => exact iff_of_true (judgeHost_ipv4 spelled internal) rfl
    | true =>
      refine iff_of_false (fun h => ?_) (fun h => nomatch h)
      rw [name, judgeHost_dot getLast?_dotted] at h
      cases h
  | localhost text clear named trailingDot =>
    cases trailingDot with
    | false => exact iff_of_true (judgeHost_localhost named) rfl
    | true =>
      refine iff_of_false (fun h => ?_) (fun h => nomatch h)
      rw [name, judgeHost_dot getLast?_dotted] at h
      cases h
  | ipv6 text ip spelled internal zone clear =>
    cases zone with
    | none => exact iff_of_true (judgeHost_ipv6 spelled internal) (fun z hz => nomatch hz)
    | some z =>
      rw [name, zoned, judgeHost_zone]
      constructor
      · intro h z' hz'
        rwa [← Option.some.inj hz']
      · intro h
        exact h z rfl

theorem mem_dotted {trailingDot : Bool} {text : List Char} {c : Char}
    (hc : c ∈ dotted trailingDot text) : c ∈ text ∨ c = '.' := by
  cases trailingDot with
  | false => exact .inl hc
  | true => exact (List.mem_append.mp hc).imp_right List.mem_singleton.mp

theorem isGenDelim_of_inetAton {text : List Char} {n : ℕ} (h : inetAton text = some n) {c : Char}
    (hc : c ∈ text) : isGenDelim c = false := by
  cases hdelim : isGenDelim c with
  | false => rfl
  | true =>
    have hmem : c ∈ ":/?#[]@".toList := List.contains_iff_mem.mp hdelim
    have hnone : ∀ d ∈ ":/?#[]@".toList,
        isDigitOf 16 d = false ∧ d ≠ '.' ∧ d ≠ 'x' ∧ d ≠ 'X' :=
      List.all_iff_forall_prop.mp (by decide)
    obtain ⟨hdigit, hdot, hx, hX⟩ := hnone c hmem
    rcases char_of_isNumericIpHost (isNumericIpHost_of_inetAton h) hc with h | h | h | h
    · rw [hdigit] at h
      cases h
    · exact absurd h hdot
    · exact absurd h hx
    · exact absurd h hX

theorem isZoneDelim_of_isGenDelim {c : Char} (h : isGenDelim c = false) : isZoneDelim c = false := by
  have hsub : ∀ d ∈ "/?#]@".toList, d ∈ ":/?#[]@".toList :=
    List.all_iff_forall_prop.mp (by decide)
  cases hdelim : isZoneDelim c with
  | false => rfl
  | true =>
    have hgen : isGenDelim c = true :=
      List.contains_iff_mem.mpr (hsub c (List.contains_iff_mem.mp hdelim))
    rw [hgen] at h
    cases h

theorem isGenDelim_of_mem_name {h : InternalHost} (hb : h.isBracketed = false) {c : Char}
    (hc : c ∈ h.name) : isGenDelim c = false := by
  cases h with
  | ipv4 text value spelled internal trailingDot =>
    rcases mem_dotted hc with hc | rfl
    · exact isGenDelim_of_inetAton spelled hc
    · decide
  | localhost text clear named trailingDot =>
    rcases mem_dotted hc with hc | rfl
    · exact clear c hc
    · decide
  | ipv6 => cases hb

theorem isZoneDelim_of_mem_name {h : InternalHost} {c : Char} (hc : c ∈ h.name) :
    isZoneDelim c = false := by
  cases h with
  | ipv4 => exact isZoneDelim_of_isGenDelim (isGenDelim_of_mem_name rfl hc)
  | localhost => exact isZoneDelim_of_isGenDelim (isGenDelim_of_mem_name rfl hc)
  | ipv6 text ip spelled internal zone clear =>
    have htext (hc : c ∈ text) : isZoneDelim c = false := by
      have hchar := (consumable_of_parseIpAddr (parseIpAddr_ipv6 spelled)).chars c hc
      have hnone : ∀ d ∈ "/?#]@".toList, isIpChar d = false :=
        List.all_iff_forall_prop.mp (by decide)
      cases hdelim : isZoneDelim c with
      | false => rfl
      | true =>
        rw [hnone c (List.contains_iff_mem.mp hdelim)] at hchar
        cases hchar
    cases zone with
    | none => exact htext hc
    | some z =>
      rcases List.mem_append.mp hc with hc | hc
      · exact htext hc
      · rcases List.mem_cons.mp hc with rfl | hc
        · decide
        · exact clear z rfl c hc

theorem name_ne_nil (h : InternalHost) : h.name ≠ [] := by
  have hdotted {trailingDot : Bool} {text : List Char} (hne : text ≠ []) :
      dotted trailingDot text ≠ [] := by
    cases trailingDot with
    | false => exact hne
    | true => simp [dotted]
  cases h with
  | ipv4 text value spelled internal trailingDot =>
    refine hdotted ?_
    rintro rfl
    have hnone : inetAton [] = none := by decide
    rw [hnone] at spelled
    cases spelled
  | localhost text clear named trailingDot =>
    obtain ⟨c, hc, -⟩ := named.exists_char
    exact hdotted (List.ne_nil_of_mem hc)
  | ipv6 text ip spelled internal zone clear =>
    have hcolon := colon_mem_of_parseIpAddr (parseIpAddr_ipv6 spelled)
    cases zone with
    | none => exact List.ne_nil_of_mem hcolon
    | some z => exact List.ne_nil_of_mem (List.mem_append_left _ hcolon)

end InternalHost

/-- An https URL of an internal target. -/
structure InternalUrl where
  scheme : List Char
  userinfo : Option (List Char)
  host : InternalHost
  port : Option (List Char)
  rest : List Char
  scheme_https : scheme.map Char.toLower = "https".toList
  userinfo_clear : ∀ u ∈ userinfo, ∀ c ∈ u, endsAuthority c = false
  port_digits : ∀ p ∈ port, ∀ c ∈ p, c.isDigit = true
  rest_opens : ∀ c ∈ rest.head?, endsAuthority c = true

def portText : Option (List Char) → List Char
  | none => []
  | some p => ':' :: p

namespace InternalUrl

def hostPort (u : InternalUrl) : List Char := u.host.text ++ portText u.port

def authority (u : InternalUrl) : List Char :=
  match u.userinfo with
  | none => u.hostPort
  | some i => i ++ '@' :: u.hostPort

def text (u : InternalUrl) : String :=
  String.ofList (u.scheme ++ "://".toList ++ u.authority ++ u.rest)

end InternalUrl

end Spellings

section Guard

theorem splitOnceStr_scheme {scheme tl : List Char} (h : ':' ∉ scheme) :
    Mail.splitOnceStr "://".toList (scheme ++ "://".toList ++ tl) = some (scheme, tl) := by
  induction scheme with
  | nil =>
    rw [List.nil_append]
    exact if_pos (List.prefix_append _ tl)
  | cons c scheme ih =>
    obtain ⟨hc, h⟩ := not_or.mp (mt List.mem_cons.mpr h)
    have hpre : ¬ "://".toList <+: c :: (scheme ++ "://".toList ++ tl) := by
      intro hpre
      exact hc (List.cons_prefix_cons.mp hpre).1
    rw [List.cons_append, List.cons_append, Mail.splitOnceStr, if_neg hpre, ih h]
    rfl

theorem takeWhile_ne_append {s : Char} {front rest : List Char} (h : s ∉ front)
    (hrest : rest = [] ∨ ∃ tl, rest = s :: tl) : (front ++ rest).takeWhile (· ≠ s) = front := by
  refine (takeWhile_dropWhile_append ?_ ?_).1
  · intro c hc
    rw [decide_eq_true_eq]
    rintro rfl
    exact h hc
  · intro c hc
    rcases hrest with rfl | ⟨tl, rfl⟩
    · cases hc
    · rw [← Option.some.inj hc, decide_eq_false_iff_not, not_not]

theorem afterUserinfo_append {front host : List Char} (h : '@' ∉ host) :
    afterUserinfo (front ++ '@' :: host) = host := by
  have hrev : (front ++ '@' :: host).reverse = host.reverse ++ '@' :: front.reverse := by simp
  rw [afterUserinfo, hrev, takeWhile_ne_append (mt List.mem_reverse.mp h) (.inr ⟨_, rfl⟩),
    List.reverse_reverse]

theorem afterUserinfo_of_not_mem {host : List Char} (h : '@' ∉ host) :
    afterUserinfo host = host := by
  have hnil : host.reverse = host.reverse ++ [] := (List.append_nil _).symm
  rw [afterUserinfo, hnil, takeWhile_ne_append (mt List.mem_reverse.mp h) (.inl rfl),
    List.reverse_reverse]

theorem hostOf_bracketed {name tl : List Char} (h : ']' ∉ name) :
    hostOf ('[' :: name ++ [']'] ++ tl) = .ok name := by
  have hdef (cs : List Char) : hostOf ('[' :: cs) =
      if ']' ∈ cs then .ok (cs.takeWhile (· ≠ ']')) else .error .avatarUrlUnsafe := rfl
  have hcut : '[' :: name ++ [']'] ++ tl = '[' :: (name ++ ']' :: tl) := by simp
  rw [hcut, hdef, if_pos (List.mem_append_right _ List.mem_cons_self),
    takeWhile_ne_append h (.inr ⟨_, rfl⟩)]

/-- Outside of brackets the host ends at the last colon, if digits follow it. -/
theorem hostOf_of_head {hostPort : List Char} (h : hostPort.head? ≠ some '[') :
    hostOf hostPort = .ok ((Mail.splitOnceList ':' hostPort.reverse).elim hostPort fun r =>
      if r.1.reverse.all Char.isDigit then r.2.reverse else hostPort) := by
  unfold hostOf
  split
  · exact absurd rfl h
  · cases Mail.splitOnceList ':' hostPort.reverse with
    | none => rfl
    | some r => rfl

theorem splitOnceList_port {name p : List Char} (hp : ':' ∉ p) :
    Mail.splitOnceList ':' (name ++ ':' :: p).reverse = some (p.reverse, name.reverse) := by
  have hrev : (name ++ ':' :: p).reverse = p.reverse ++ ':' :: name.reverse := by simp
  rw [hrev, Mail.splitOnceList_append (by simpa using hp)]

/-- What stands in front of the port, if the port is one. -/
theorem hostOf_plain {name : List Char} (hbracket : '[' ∉ name) (hcolon : ':' ∉ name)
    (hne : name ≠ []) {port : Option (List Char)}
    (hport : ∀ p ∈ port, ∀ c ∈ p, c.isDigit = true) :
    hostOf (name ++ portText port) = .ok name := by
  have hhead : (name ++ portText port).head? ≠ some '[' := by
    obtain ⟨x, xs, rfl⟩ := List.exists_cons_of_ne_nil hne
    intro h
    rw [Option.some.inj h] at hbracket
    exact hbracket List.mem_cons_self
  rw [hostOf_of_head hhead]
  cases port with
  | none =>
    have hnot : ':' ∉ (name ++ []).reverse := by
      rw [List.append_nil]
      exact mt List.mem_reverse.mp hcolon
    rw [portText, Mail.splitOnceList_eq, if_neg hnot, Option.elim_none, List.append_nil]
  | some p =>
    have hp : ':' ∉ p := fun hmem => absurd (hport p rfl ':' hmem) (by decide)
    have hdigits : p.reverse.reverse.all Char.isDigit = true := by
      rw [List.reverse_reverse]
      exact List.all_eq_true.mpr (hport p rfl)
    rw [portText, splitOnceList_port hp, Option.elim_some, if_pos hdigits, List.reverse_reverse]

theorem hostOf_hostPort (u : InternalUrl) : hostOf u.hostPort = .ok u.host.name := by
  cases hb : u.host.isBracketed with
  | true =>
    have hbracket : ']' ∉ u.host.name := fun h =>
      absurd (InternalHost.isZoneDelim_of_mem_name h) (by decide)
    rw [InternalUrl.hostPort, InternalHost.text, if_pos hb]
    exact hostOf_bracketed hbracket
  | false =>
    have hclear {c : Char} (hc : isGenDelim c = true) : c ∉ u.host.name := fun h => by
      rw [InternalHost.isGenDelim_of_mem_name hb h] at hc
      cases hc
    rw [InternalUrl.hostPort, InternalHost.text, if_neg (by simp [hb])]
    exact hostOf_plain (hclear (by decide)) (hclear (by decide)) u.host.name_ne_nil u.port_digits

theorem mem_hostPort {u : InternalUrl} {c : Char} (hc : c ∈ u.hostPort) :
    c ∈ u.host.name ∨ c = '[' ∨ c = ']' ∨ c = ':' ∨ c.isDigit = true := by
  rcases List.mem_append.mp hc with hc | hc
  · unfold InternalHost.text at hc
    split_ifs at hc
    · rcases List.mem_append.mp hc with hc | hc
      · rcases List.mem_cons.mp hc with rfl | hc
        · exact .inr (.inl rfl)
        · exact .inl hc
      · exact .inr (.inr (.inl (List.mem_singleton.mp hc)))
    · exact .inl hc
  · cases hport : u.port with
    | none =>
      rw [hport] at hc
      cases hc
    | some p =>
      rw [hport] at hc
      rcases List.mem_cons.mp hc with rfl | hc
      · exact .inr (.inr (.inr (.inl rfl)))
      · exact .inr (.inr (.inr (.inr (u.port_digits p hport c hc))))

theorem not_mem_hostPort {u : InternalUrl} {c : Char} (hc : c = '@' ∨ endsAuthority c = true) :
    c ∉ u.hostPort := by
  have hdelim : c = '@' ∨ c = '/' ∨ c = '?' ∨ c = '#' := by
    simpa [endsAuthority, or_assoc] using hc
  intro hmem
  rcases mem_hostPort hmem with h | h | h | h | h
  · have hzone := InternalHost.isZoneDelim_of_mem_name h
    rcases hdelim with rfl | rfl | rfl | rfl <;> exact absurd hzone (by decide)
  all_goals rcases hdelim with rfl | rfl | rfl | rfl <;> exact absurd h (by decide)

theorem afterUserinfo_authority (u : InternalUrl) : afterUserinfo u.authority = u.hostPort := by
  have hat : '@' ∉ u.hostPort := not_mem_hostPort (.inl rfl)
  unfold InternalUrl.authority
  cases u.userinfo with
  | none => exact afterUserinfo_of_not_mem hat
  | some i => exact afterUserinfo_append hat

theorem validateAuthority_authority (u : InternalUrl) :
    validateAuthority u.authority = judgeHost u.host.name := by
  have hne : u.authority ≠ [] := by
    intro hnil
    have hhost := hostOf_hostPort u
    rw [← afterUserinfo_authority, hnil] at hhost
    exact absurd (Except.ok.inj hhost).symm u.host.name_ne_nil
  rw [validateAuthority, if_neg hne, afterUserinfo_authority, hostOf_hostPort]
  exact if_neg u.host.name_ne_nil

theorem validateAvatarUrl_text (u : InternalUrl) :
    validateAvatarUrl u.text = judgeHost u.host.name := by
  have hcolon : ':' ∉ u.scheme := by
    intro h
    have hmem : ':'.toLower ∈ "https".toList := u.scheme_https ▸ List.mem_map_of_mem h
    exact absurd hmem (by decide)
  have hauthority : (u.authority ++ u.rest).takeWhile (fun c => !endsAuthority c) = u.authority := by
    refine (takeWhile_dropWhile_append ?_ ?_).1
    · intro c hc
      have hhost (hc : c ∈ u.hostPort) : endsAuthority c = false := by
        cases hends : endsAuthority c with
        | false => rfl
        | true => exact absurd hc (not_mem_hostPort (.inr hends))
      rw [Bool.not_eq_true']
      unfold InternalUrl.authority at hc
      cases huser : u.userinfo with
      | none =>
        rw [huser] at hc
        exact hhost hc
      | some i =>
        rw [huser] at hc
        rcases List.mem_append.mp hc with hc | hc
        · exact u.userinfo_clear i huser c hc
        · rcases List.mem_cons.mp hc with rfl | hc
          · rfl
          · exact hhost hc
    · intro c hc
      rw [u.rest_opens c hc]
      rfl
  have htext : u.text.toList = u.scheme ++ "://".toList ++ (u.authority ++ u.rest) :=
    String.toList_ofList.trans (List.append_assoc _ u.authority u.rest)
  rw [validateAvatarUrl, htext, splitOnceStr_scheme hcolon]
  dsimp only
  rw [if_pos u.scheme_https, hauthority, validateAuthority_authority]

/-- The guard refuses just those of them that name their target with nothing behind it. -/
theorem validateAvatarUrl_internal_iff (u : InternalUrl) :
    validateAvatarUrl u.text = .error .avatarUrlUnsafe ↔ u.host.Undisguised := by
  rw [validateAvatarUrl_text]
  exact u.host.judgeHost_iff

/-- The loopback address with a dot behind it, as a resolver takes it too. -/
def dottedLoopback : InternalUrl where
  scheme := "https".toList
  userinfo := none
  host := .ipv4 "127.0.0.1".toList (127 * 2 ^ 24 + 1) (by decide) (by decide) true
  port := none
  rest := "/".toList
  scheme_https := by decide
  userinfo_clear := by decide
  port_digits := by decide
  rest_opens := by
    intro c hc
    rw [← Option.some.inj (show some '/' = some c from hc)]
    decide

theorem validateAvatarUrl_dottedLoopback :
    dottedLoopback.text = "https://127.0.0.1./" ∧
      validateAvatarUrl dottedLoopback.text = .ok () := by
  decide

end Guard
end Dmtap.Identity
