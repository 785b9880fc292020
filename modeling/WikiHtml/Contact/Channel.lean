-- The channels over which a contact can be reached: their tags, their labels, and the links to an
-- account.

namespace WikiHtml.Contact

/-- A way to reach someone. -/
inductive Channel where
  | homepage
  | mobile
  | email
  | aim
  | facebook
  | googleTalk
  | icq
  | jabber
  | linkedIn
  | msn
  | qq
  | skype
  | twitter
  | weChat
  | xing
  | yahoo
  | youtube
  deriving DecidableEq, Repr

namespace Channel

/-- All channels, in the order in which they are shown. -/
def all : List Channel :=
  [.homepage, .mobile, .email, .aim, .facebook, .googleTalk, .icq, .jabber, .linkedIn, .msn, .qq,
   .skype, .twitter, .weChat, .xing, .yahoo, .youtube]

/-- The name of the tag of an account. -/
def tagName : Channel → String
  | .homepage => "homepage"
  | .mobile => "mobil"
  | .email => "email"
  | .aim => "aim"
  | .facebook => "facebook"
  | .googleTalk => "googletalk"
  | .icq => "icq"
  | .jabber => "jabber"
  | .linkedIn => "linkedin"
  | .msn => "msn"
  | .qq => "qq"
  | .skype => "skype"
  | .twitter => "twitter"
  | .weChat => "wechat"
  | .xing => "xing"
  | .yahoo => "yahoo"
  | .youtube => "youtube"

/-- The channel of a tag. -/
def ofTag? (name : String) : Option Channel :=
  all.find? (·.tagName == name)

/-- The label before the accounts. -/
def label : Channel → String
  | .homepage => "Homepage"
  | .mobile => "Mobil"
  | .email => "E-Mail"
  | .aim => "AIM"
  | .facebook => "Facebook"
  | .googleTalk => "Google Talk"
  | .icq => "ICQ"
  | .jabber => "Jabber"
  | .linkedIn => "LinkedIn"
  | .msn => "MSN"
  | .qq => "QQ"
  | .skype => "Skype"
  | .twitter => "Twitter"
  | .weChat => "WeChat"
  | .xing => "Xing"
  | .yahoo => "Yahoo"
  | .youtube => "Youtube"

/-- Whether a text starts with another. -/
def startsWith (s start : String) : Bool :=
  start.toList.isPrefixOf s.toList

/-- An account after the start of a URL, unless it starts like that itself. -/
def complete (start account : String) : String :=
  if startsWith account start then account else start ++ account

/-- The URL of an account; not all channels have one. -/
def url? (channel : Channel) (account : String) : Option String :=
  match channel with
  | .homepage => some (complete "http://" account)
  | .email => some (complete "mailto:" account)
  | .icq => some (complete "http://www.icq.com/people/" account)
  | .skype => some (complete "skype:" account)
  | .twitter => some (complete "http://twitter.com/" account)
  | .xing => some (complete "https://www.xing.com/profile/" account)
  | .youtube => some (complete "http://www.youtube.com/user/" account)
  | .facebook =>
    if startsWith account "http://" then some account
    else if account.toList.contains '/' then some ("http://www.facebook.com/people/" ++ account)
    else some ("http://www.facebook.com/" ++ account)
  | .linkedIn =>
    if account.toList.all Char.isDigit then
      some ("http://www.linkedin.com/profile/view?id=" ++ account)
    else some ("http://www.linkedin.com/in/" ++ account)
  | .mobile | .aim | .googleTalk | .jabber | .msn | .qq | .weChat | .yahoo => none

end Channel

end WikiHtml.Contact
