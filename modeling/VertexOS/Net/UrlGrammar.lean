import VertexOS.Net.Ipv4Text

namespace VertexOS

/-- The host of a URL, which fits `host_out` with its terminator. -/
structure UrlHost (host : List UInt8) : Prop where
  nonempty : host ≠ []
  fits : host.length ≤ 127
  plain : ∀ c ∈ host, c ≠ 0 ∧ c ≠ 58 ∧ c ≠ 47

/-- The optional port: its text and the port it stands for. -/
inductive UrlPort : List UInt8 → UInt16 → Prop
  | absent : UrlPort [] 80
  | given {ds : List UInt8} {port : UInt16} : Decimal ds port.toNat → UrlPort (58 :: ds) port

/-- The optional path: its text and the path it stands for. -/
inductive UrlPath : List UInt8 → List UInt8 → Prop
  | absent : UrlPath [] (ascii "/")
  | given {cs : List UInt8} : 0 ∉ cs → UrlPath (47 :: cs) (47 :: cs)

section Grammar

variable {scheme host portText pathText path : List UInt8} {port : UInt16} {a b : List UInt8}

theorem UrlPath.head (h : UrlPath pathText path) : ∀ c ∈ pathText.head?, c = 47 := by
  cases h <;> simp

/-- What follows a host starts with a separator, if it is there at all. -/
theorem authority_rest (hport : UrlPort portText port) (hpath : UrlPath pathText path) :
    ∀ c ∈ (portText ++ pathText).head?, c = 58 ∨ c = 47 := by
  cases hport with
  | absent =>
    intro c hc
    exact Or.inr (hpath.head c (by simpa using hc))
  | given hds => simp

/-- The text before the first separator is the host. -/
theorem takeHost (ha : ∀ c ∈ a, c ≠ 58 ∧ c ≠ 47) (hb : ∀ c ∈ b.head?, c = 58 ∨ c = 47) :
    (a ++ b).takeWhile (fun c => c ≠ 58 && c ≠ 47) = a := by
  rw [List.takeWhile_append_of_pos (by simpa using ha)]
  cases b with
  | nil => simp
  | cons c cs => rcases hb c rfl with rfl | rfl <;> simp

theorem Decimal.no_colon {ds : List UInt8} {v : Nat} (h : Decimal ds v) : 58 ∉ ds := by
  intro hm
  cases h.digits 58 hm

theorem Decimal.front {ds : List UInt8} {v : Nat} (h : Decimal ds v) :
    ∃ d ds', ds = d :: ds' ∧ d ≠ 47 := by
  obtain ⟨d, ds', rfl⟩ := List.exists_cons_of_ne_nil h.nonempty
  refine ⟨d, ds', rfl, ?_⟩
  rintro rfl
  cases h.digits 47 List.mem_cons_self

/-- Host, port and path are read as they are written. -/
theorem parseAuthority_grammar (hhost : UrlHost host) (hport : UrlPort portText port)
    (hpath : UrlPath pathText path) :
    parseAuthority (host ++ (portText ++ pathText)) 128 = .ok (host, port, path) := by
  obtain ⟨hne, hfits, hplain⟩ := hhost
  have htake := takeHost (fun c hc => (hplain c hc).2) (authority_rest hport hpath)
  rw [parseAuthority]
  simp only [htake, List.drop_left]
  rw [if_neg (by simp [hne]; omega)]
  cases hport with
  | absent => cases hpath <;> simp
  | @given ds port hds =>
    have hstop : ∀ c ∈ pathText.head?, asciiDigit c = false := by
      intro c hc
      rw [hpath.head c hc]
      decide
    have hparse := parseU16Any_iff.mpr ⟨ds, hds, rfl, hstop⟩
    simp only [List.cons_append, hparse]
    cases hpath <;> simp

/-- A `://` behind text without a `:` is in what follows that text. -/
theorem hasScheme_append (ha : 58 ∉ a) : hasScheme (a ++ b) = hasScheme b := by
  induction a with
  | nil => simp
  | cons c cs ih =>
    obtain ⟨hc, hcs⟩ : 58 ≠ c ∧ 58 ∉ cs := by simpa using ha
    simp [hasScheme, Ne.symm hc, ih hcs]

/-- Only the path of a bare URL can hold a `://`. -/
theorem hasScheme_bare (hhost : UrlHost host) (hport : UrlPort portText port) :
    hasScheme (host ++ (portText ++ pathText)) = hasScheme pathText := by
  rw [hasScheme_append fun hm => (hhost.plain 58 hm).2.1 rfl]
  cases hport with
  | absent => rfl
  | given hds =>
    have htail := hasScheme_append (b := pathText) hds.no_colon
    obtain ⟨d, ds, rfl, hd⟩ := hds.front
    simpa [hasScheme, hd] using htail

theorem startsWithCi_append (h : a.map asciiLower = b.map asciiLower) :
    ∀ s p, startsWithCi (a ++ s) (b ++ p) = startsWithCi s p := by
  intro s p
  induction a generalizing b with
  | nil =>
    obtain rfl : b = [] := by simpa using h.symm
    rfl
  | cons c cs ih =>
    cases b with
    | nil => cases h
    | cons d ds =>
      obtain ⟨hc, hcs⟩ := List.cons.inj h
      simp [startsWithCi, hc, ih hcs]

/-- A text with a prefix, up to the case of its letters. -/
theorem startsWithCi_prefix {s p : List UInt8} (h : startsWithCi s p = true) :
    ∃ a rest, a.map asciiLower = p.map asciiLower ∧ s = a ++ rest := by
  induction p generalizing s with
  | nil => exact ⟨[], s, rfl, rfl⟩
  | cons d ds ih =>
    cases s with
    | nil => cases h
    | cons c cs =>
      obtain ⟨hc, hcs⟩ : asciiLower c = asciiLower d ∧ startsWithCi cs ds = true := by
        simpa [startsWithCi] using h
      obtain ⟨a, rest, ha, rfl⟩ := ih hcs
      exact ⟨c :: a, rest, by simp [hc, ha], rfl⟩

/-- The case of a letter is all that is ignored. -/
theorem asciiLower_eq {c d : UInt8} (h : asciiLower c = d) (hd : d < 97) : c = d := by
  rw [asciiLower] at h
  split at h
  · next hc =>
    rw [← h] at hd
    obtain ⟨hlow, hhigh⟩ := hc
    rw [UInt8.le_iff_toNat_le] at hlow hhigh
    rw [UInt8.lt_iff_toNat_lt, UInt8.toNat_add] at hd
    simp at hlow hhigh hd
    omega
  · exact h

/-- A text that starts with `http://` starts with a scheme and its separator. -/
theorem startsWithCi_http {s : List UInt8} (h : startsWithCi s (ascii "http://") = true) :
    ∃ scheme rest, scheme.map asciiLower = ascii "http" ∧ s = scheme ++ 58 :: 47 :: 47 :: rest := by
  obtain ⟨a, rest, ha, rfl⟩ := startsWithCi_prefix h
  have hsplit : (ascii "http://").map asciiLower = ascii "http" ++ [58, 47, 47] := by decide
  rw [hsplit] at ha
  obtain ⟨scheme, sep, rfl, hscheme, hsep⟩ := List.map_eq_append_iff.mp ha
  obtain ⟨c, cs, rfl, hc, hcs⟩ := List.map_eq_cons_iff.mp hsep
  obtain ⟨d, ds, rfl, hd, hds⟩ := List.map_eq_cons_iff.mp hcs
  obtain ⟨e, es, rfl, he, hes⟩ := List.map_eq_cons_iff.mp hds
  obtain rfl : es = [] := List.map_eq_nil_iff.mp hes
  rw [asciiLower_eq hc (by decide), asciiLower_eq hd (by decide), asciiLower_eq he (by decide)]
  exact ⟨scheme, rest, hscheme, by simp⟩

/-- The letters of the scheme are none of the separators. -/
theorem scheme_plain (h : scheme.map asciiLower = ascii "http") :
    ∀ c ∈ scheme, c ≠ 58 ∧ c ≠ 47 := by
  intro c hc
  have hm : asciiLower c ∈ ascii "http" := h ▸ List.mem_map_of_mem hc
  constructor <;> rintro rfl <;> revert hm <;> decide

/-- No bare URL starts with `http://`. -/
theorem bare_not_http (hhost : UrlHost host) (hport : UrlPort portText port)
    (hpath : UrlPath pathText path) :
    startsWithCi (host ++ (portText ++ pathText)) (ascii "http://") = false := by
  by_contra hstart
  obtain ⟨scheme, rest, hscheme, heq⟩ := startsWithCi_http (by simpa using hstart)
  have hhostIs := takeHost (fun c hc => (hhost.plain c hc).2) (authority_rest hport hpath)
  rw [heq, takeHost (scheme_plain hscheme) (by simp)] at hhostIs
  subst hhostIs
  have hrest := List.append_cancel_left heq
  cases hport with
  | absent =>
    have := hpath.head 58 (by simpa using congrArg List.head? hrest)
    cases this
  | given hds =>
    obtain ⟨d, ds, rfl, hd⟩ := hds.front
    simp at hrest
    exact hd hrest.1

/-- A URL of the documented grammar is accepted in both forms exactly when no `://` is in its
path. -/
theorem http_url_accepted_iff (hscheme : scheme.map asciiLower = ascii "http")
    (hhost : UrlHost host) (hport : UrlPort portText port) (hpath : UrlPath pathText path) :
    (parseHttpUrl (scheme ++ ascii "://" ++ (host ++ (portText ++ pathText))) 128 =
        .ok (host, port, path) ∧
      parseHttpUrl (host ++ (portText ++ pathText)) 128 = .ok (host, port, path)) ↔
    hasScheme pathText = false := by
  have hsep : ascii "://" = [58, 47, 47] := by decide
  have hparts := parseAuthority_grammar hhost hport hpath
  have hbare : _ = hasScheme pathText := hasScheme_bare hhost hport
  have hnot := bare_not_http hhost hport hpath
  generalize host ++ (portText ++ pathText) = authority at *
  have hlower : scheme.map asciiLower = (ascii "http").map asciiLower := by
    rw [hscheme]
    decide
  have hlen : scheme.length = 4 := by
    rw [← List.length_map (f := asciiLower), hscheme]
    decide
  have hwith : parseHttpUrl (scheme ++ ascii "://" ++ authority) 128 = .ok (host, port, path) := by
    have hfound : hasScheme (scheme ++ ascii "://" ++ authority) = true := by
      rw [List.append_assoc, hasScheme_append fun hm => (scheme_plain hscheme 58 hm).1 rfl]
      simp [hsep, hasScheme]
    have hhttps : startsWithCi (scheme ++ (ascii "://" ++ authority)) (ascii "https://") = false :=
      startsWithCi_append hlower _ (ascii "s://")
    have hhttp : startsWithCi (scheme ++ (ascii "://" ++ authority)) (ascii "http://") = true :=
      (startsWithCi_append hlower _ (ascii "://")).trans (by simp [hsep, startsWithCi])
    have hdrop : (scheme ++ ascii "://" ++ authority).drop 7 = authority :=
      List.drop_left' (by simp [hlen, hsep])
    rw [parseHttpUrl, if_pos hfound, hdrop, List.append_assoc, hhttps, hhttp]
    simpa using hparts
  constructor
  · intro h
    by_contra hpathScheme
    have herr := h.2
    rw [parseHttpUrl, hbare, if_pos (by simpa using hpathScheme), hnot] at herr
    simp at herr
  · intro h
    refine ⟨hwith, ?_⟩
    rw [parseHttpUrl, hbare, if_neg (by simp [h])]
    exact hparts

/-- `a/b://c` is turned away for its scheme. -/
theorem http_url_refused : UrlHost (ascii "a") ∧ UrlPort [] 80 ∧
    UrlPath (ascii "/b://c") (ascii "/b://c") ∧
    parseHttpUrl (ascii "a/b://c") 128 = .error .unsupportedScheme ∧
    ¬ parseHttpUrl (ascii "a" ++ ([] ++ ascii "/b://c")) 128 =
      .ok (ascii "a", 80, ascii "/b://c") := by
  have hpath : ascii "/b://c" = 47 :: [98, 58, 47, 47, 99] := by decide
  refine ⟨⟨by decide, by decide, by simp [ascii]⟩, .absent, ?_, by decide +kernel, by decide +kernel⟩
  rw [hpath]
  exact .given (by decide)

/-- `HTTP://a:81/b`, and `a:81/b`. -/
theorem http_url_accepted : hasScheme (ascii "/b") = false ∧
    ((parseHttpUrl (ascii "HTTP" ++ ascii "://" ++ (ascii "a" ++ (ascii ":81" ++ ascii "/b"))) 128 =
        .ok (ascii "a", 81, ascii "/b") ∧
      parseHttpUrl (ascii "a" ++ (ascii ":81" ++ ascii "/b")) 128 =
        .ok (ascii "a", 81, ascii "/b")) ↔
    hasScheme (ascii "/b") = false) := by
  have hport : UrlPort (ascii ":81") 81 := by
    have htext : ascii ":81" = 58 :: [56, 49] := by decide
    rw [htext]
    exact .given ⟨by decide, by simp [asciiDigit], by decide⟩
  have hpath : UrlPath (ascii "/b") (ascii "/b") := by
    have htext : ascii "/b" = 47 :: [98] := by decide
    rw [htext]
    exact .given (by decide)
  exact ⟨by decide, http_url_accepted_iff (by decide) ⟨by decide, by decide, by simp [ascii]⟩ hport hpath⟩

end Grammar

end VertexOS
