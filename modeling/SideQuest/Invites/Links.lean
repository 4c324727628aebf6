import SideQuest.Model.Links

-- What a registration link carries: the one parameter that it was built for, character by
-- character, whatever the text.

namespace SideQuest

open InvitesService UsersService

-- The parameters that the page behind a link reads off it.
def linkParameters (link : String) : List (String × String) :=
  (Percent.parameters link.toList).map fun p => (String.ofList p.1, String.ofList p.2)

theorem withoutSlash_notMem {base : String} {c : Char} (h : c ∉ base.toList) :
    c ∉ (withoutSlash base).toList := by
  unfold withoutSlash
  split
  · rw [String.toList_ofList]
    exact fun hmem => h (List.dropLast_subset _ hmem)
  · exact h

theorem unreserved_special : ∀ c ∈ Percent.special, unreserved c = false := by
  simp [Percent.special, unreserved]

theorem linkParameters_eq {base parameter : String} (hquestion : '?' ∉ base.toList)
    (hfragment : '#' ∉ base.toList) (hparameter : ∀ c ∈ parameter.toList, unreserved c = true)
    (hequals : '=' ∉ parameter.toList) (text : String) :
    linkParameters (buildRegisterLink base parameter text) = [(parameter, text)] := by
  have hlink : (buildRegisterLink base parameter text).toList =
      ((withoutSlash base).toList ++ "/register".toList) ++ '?' ::
        (parameter.toList ++ '=' :: Percent.encode unreserved text.toList) := by
    simp [buildRegisterLink, encodeURIComponent]
  have hfront {c : Char} (h : c ∉ base.toList) (hc : c ∉ "/register".toList) :
      c ∉ (withoutSlash base).toList ++ "/register".toList := by
    rw [List.mem_append]
    exact fun hmem => hmem.elim (withoutSlash_notMem h) hc
  have hparameters := Percent.parameters_eq unreserved_special (hfront hquestion (by decide))
    (hfront hfragment (by decide)) hparameter hequals text.toList
  rw [linkParameters, hlink, hparameters]
  simp

-- Nothing in the encoded text ends the link or is read as something else in it.
theorem safe_encodeURIComponent (text : String) :
    ∀ c ∈ (encodeURIComponent text).toList, unreserved c = true ∨ c = '%' := by
  intro c hc
  have hdigits : ∀ d ∈ Percent.digits, unreserved d = true :=
    List.all_eq_true.mp (by decide)
  rw [encodeURIComponent, String.toList_ofList] at hc
  rcases Percent.mem_encode hc with hkept | hpercent | hdigit
  · exact .inl hkept
  · exact .inr hpercent
  · exact .inl (hdigits c hdigit)

-- Every link carries the username or the token that it was built for, and nothing else.
theorem links_carry {config : Option String} (hquestion : '?' ∉ (frontendUrl config).toList)
    (hfragment : '#' ∉ (frontendUrl config).toList) :
    (∀ user, linkParameters (userInviteLink config user) = [("ref", user.username)]) ∧
      (∀ username, linkParameters (buildPersonalInviteLink config username) = [("ref", username)]) ∧
      (∀ invite, linkParameters (toInviteCreated config invite).inviteLink =
        [("invite", invite.token)]) ∧
      ∀ text, ∀ c ∈ (encodeURIComponent text).toList, unreserved c = true ∨ c = '%' := by
  have hcarry (parameter : String) (h : ∀ c ∈ parameter.toList, unreserved c = true)
      (hequals : '=' ∉ parameter.toList) (text : String) :
      linkParameters (buildRegisterLink (frontendUrl config) parameter text) = [(parameter, text)] :=
    linkParameters_eq hquestion hfragment h hequals text
  have href : ∀ c ∈ "ref".toList, unreserved c = true := List.all_eq_true.mp (by decide)
  have hinvite : ∀ c ∈ "invite".toList, unreserved c = true := List.all_eq_true.mp (by decide)
  refine ⟨fun user => ?_, fun username => ?_, fun invite => ?_, safe_encodeURIComponent⟩
  · exact hcarry "ref" href (by decide) user.username
  · exact hcarry "ref" href (by decide) username
  · exact hcarry "invite" hinvite (by decide) invite.token

-- A username that needs every kind of escape, behind a configured slash.
theorem links_carry_escapes :
    buildPersonalInviteLink (some "https://quest.example/") "Ji & %+=?#ř" =
        "https://quest.example/register?ref=Ji%20%26%20%25%2B%3D%3F%23%C5%99" ∧
      linkParameters (buildPersonalInviteLink (some "https://quest.example/") "Ji & %+=?#ř") =
        [("ref", "Ji & %+=?#ř")] :=
  ⟨by decide +kernel, (links_carry (by decide) (by decide)).2.1 _⟩

end SideQuest
