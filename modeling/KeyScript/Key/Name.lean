import KeyScript.Text.Glyph

/-!
The names of keys a keyboard can press. Names are lower case; a key with a
printed character is named by that character.
-/

namespace KeyScript

namespace Key

/-- The keys with a printed character, and the blanks that have a key. -/
def characterNames : List Text :=
  ["\t", "\n", "\x0d", " ", "!", "\"", "#", "$", "%", "&", "'", "(",
   ")", "*", "+", ",", "-", ".", "/", "0", "1", "2", "3", "4", "5", "6", "7",
   "8", "9", ":", ";", "<", "=", ">", "?", "@", "[", "\\", "]", "^", "_", "`",
   "a", "b", "c", "d", "e", "f", "g", "h", "i", "j", "k", "l", "m", "n", "o",
   "p", "q", "r", "s", "t", "u", "v", "w", "x", "y", "z", "\x7b", "|", "\x7d", "~"].map utf8

def wordNames : List Text :=
  ["accept", "add", "alt", "altleft", "altright", "apps", "backspace",
   "browserback", "browserfavorites", "browserforward", "browserhome",
   "browserrefresh", "browsersearch", "browserstop", "capslock", "clear",
   "convert", "ctrl", "ctrlleft", "ctrlright", "decimal", "del", "delete",
   "divide", "down", "end", "enter", "esc", "escape", "execute",
   "f1", "f2", "f3", "f4", "f5", "f6", "f7", "f8", "f9", "f10", "f11", "f12",
   "f13", "f14", "f15", "f16", "f17", "f18", "f19", "f20", "f21", "f22", "f23", "f24",
   "final", "fn", "hanguel", "hangul", "hanja", "help", "home", "insert", "junja",
   "kana", "kanji", "launchapp1", "launchapp2", "launchmail",
   "launchmediaselect", "left", "modechange", "multiply", "nexttrack",
   "nonconvert", "num0", "num1", "num2", "num3", "num4", "num5", "num6",
   "num7", "num8", "num9", "numlock", "pagedown", "pageup", "pause", "pgdn",
   "pgup", "playpause", "prevtrack", "print", "printscreen", "prntscrn",
   "prtsc", "prtscr", "return", "right", "scrolllock", "select", "separator",
   "shift", "shiftleft", "shiftright", "sleep", "space", "stop", "subtract", "tab",
   "up", "volumedown", "volumemute", "volumeup", "win", "winleft", "winright", "yen",
   "command", "option", "optionleft", "optionright"].map utf8

def names : List Text :=
  characterNames ++ wordNames

def isName (name : Text) : Bool :=
  names.contains name

end Key

end KeyScript
