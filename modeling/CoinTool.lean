import CoinTool.Framework.ForLoop
import CoinTool.Common.Utils.Config
import CoinTool.Common.Utils.Levels
import CoinTool.Common.Utils.Log
import CoinTool.Common.Reward.Conservation
import CoinTool.Common.Reward.Totals
import CoinTool.Common.Reward.Agreement
import CoinTool.Common.Genesis.Model
import CoinTool.Common.Genesis.Search
import CoinTool.Common.Genesis.Nonces
import CoinTool.Common.KeyTool.Model
import CoinTool.Common.KeyTool.Sign
import CoinTool.Common.Reward.Bounds
import CoinTool.Common.Reward.Canonical
import CoinTool.Common.KeyTool.Pairing
import CoinTool.Common.Utils.FailedLoad
import CoinTool.Common.KeyTool.CheckKey
import CoinTool.Common.KeyTool.FindAddress
import CoinTool.Common.KeyTool.AddressSearch
import CoinTool.Common.Utils.Net
import CoinTool.Common.Alert.Model
import CoinTool.Common.Alert.Release
import CoinTool.Common.KeyTool.FindSubstr
import CoinTool.Common.Utils.Negative
import CoinTool.Common.Genesis.Ranges
import CoinTool.Common.Utils.Stamps
import CoinTool.Common.Utils.Format
import CoinTool.Common.KeyTool.PrivKey
import CoinTool.Common.Buffers
import CoinTool.Common.MemPool.Model
import CoinTool.Common.MemPool.Fill
import CoinTool.Common.MemPool.Distinct
import CoinTool.Common.Hunt
import CoinTool.Common.Genesis.Prints
import CoinTool.Common.Genesis.Completion
import CoinTool.Common.KeyTool.AddressHunt
import CoinTool.Common.KeyTool.AddressEnds
import CoinTool.Common.Genesis.Clock
import CoinTool.Common.Genesis.Command
import CoinTool.Common.Utils.Appends
import CoinTool.Common.Utils.Session
import CoinTool.Framework.OrderedMap
import CoinTool.Tool.Main
import CoinTool.Common.Alert.Fields
import CoinTool.Common.Alert.Relay
import CoinTool.Common.KeyTool.NewAddress
import CoinTool.Common.Genesis.Authorization
import CoinTool.Common.MemPool.Reports
import CoinTool.Common.Reward.Columns
import CoinTool.Common.Reward.Example
import CoinTool.Common.Alert.File
